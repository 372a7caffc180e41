import Footprint.Parser.Error
import Footprint.Syntax.Tree

set_option autoImplicit false

/-!
The place reached in a sequence of tokens, and the steps every parser is made of.
-/

namespace Footprint.Parser

open Token

structure Cursor where
  /-- The token ahead. -/
  front : Token
  rest : List Token
  /-- The last line of the last token passed that is not layout. -/
  lastLine : Nat

def Cursor.ofTokens : List Token → Cursor
  | [] => ⟨⟨.mark .endOfFile, .start, 1⟩, [], 1⟩
  | t :: ts => ⟨t, ts, 1⟩

/-- The cursor after the token ahead; the end mark and the last token are never passed. -/
def Cursor.next (c : Cursor) : Cursor :=
  match c.rest with
  | [] => c
  | t :: ts =>
    if c.front.kind.isMark .endOfFile then c
    else ⟨t, ts, if c.front.kind.isLayout then c.lastLine else c.front.endLine⟩

/-- Parsers: functions on cursors that may fail. -/
abbrev Parse := StateT Cursor (Except Error)

def fail {α : Type} (f : Fault) (p : Position) : Parse α := fun _ => .error ⟨f, p⟩

def peek : Parse Kind := fun c => .ok (c.front.kind, c)

def peekSecond : Parse (Option Kind) := fun c => .ok (c.rest.head?.map (·.kind), c)

def here : Parse Position := fun c => .ok (c.front.pos, c)

def advance : Parse Unit := fun c => .ok ((), c.next)

/-- The line of the last token passed that is not layout. -/
def lastLine : Parse Nat := fun c => .ok (c.lastLine, c)

def failHere {α : Type} (f : Fault) : Parse α := fun c => .error ⟨f, c.front.pos⟩

def failFound {α : Type} (f : Kind → Fault) : Parse α :=
  fun c => .error ⟨f c.front.kind, c.front.pos⟩

def isAt (m : Mark) : Parse Bool := fun c => .ok (c.front.kind.isMark m, c)

/-- Passes the mark if it is ahead. -/
def accept (m : Mark) : Parse Bool := fun c =>
  if c.front.kind.isMark m then .ok (true, c.next) else .ok (false, c)

/-- What is read after the mark, if the mark is ahead. -/
def following {α : Type} (m : Mark) (x : Parse α) : Parse (Option α) := do
  if ← accept m then some <$> x else return none

/-- Passes the mark, which must be ahead. -/
def expect (m : Mark) (place : Place) : Parse Unit := fun c =>
  if c.front.kind.isMark m then .ok ((), c.next)
  else .error ⟨.missing m place c.front.kind, c.front.pos⟩

def identifier : Parse String := fun c =>
  match c.front.kind with
  | .name s => .ok (s, c.next)
  | k => .error ⟨.missingName k, c.front.pos⟩

def isAtStatementEnd : Parse Bool := fun c =>
  .ok (c.front.kind.isMark .newline || c.front.kind.isMark (.symbol .semicolon) ||
    c.front.kind.isMark .endOfFile, c)

def isAtExpression : Parse Bool := fun c =>
  .ok (match c.front.kind with
    | .int _ | .float _ | .str _ | .name _ => true
    | .mark (.keyword k) => k = .trueKw || k = .falseKw || k = .noneKw || k = .notKw
    | .mark (.symbol s) => s = .openParen || s = .openBracket || s = .minus || s = .plus
    | .mark _ => false, c)

end Footprint.Parser
