set_option autoImplicit false

/-!
What a script has printed, as lines that know which line of the script ended them.
-/

namespace Footprint

structure OutputLine where
  text : String
  /-- The script line of the write that ended the line, or wrote to it last. -/
  source : Nat
  deriving DecidableEq

structure Output where
  lines : Array OutputLine
  /-- What follows the last line feed, unless that is nothing. -/
  pending : Option OutputLine
  deriving DecidableEq

namespace Output

def empty : Output := ⟨#[], none⟩

def pendingText (o : Output) : String := (o.pending.map OutputLine.text).getD ""

def put (source : Nat) (o : Output) (c : Char) : Output :=
  match o with
  | ⟨lines, none⟩ =>
    if c = '\n' then ⟨lines.push ⟨"", source⟩, none⟩ else ⟨lines, some ⟨c.toString, source⟩⟩
  | ⟨lines, some ⟨text, _⟩⟩ =>
    if c = '\n' then ⟨lines.push ⟨text, source⟩, none⟩ else ⟨lines, some ⟨text.push c, source⟩⟩

def write (o : Output) (text : String) (source : Nat) : Output :=
  text.toList.foldl (put source) o

/-- The lines, with what follows the last line feed as a line of its own. -/
def texts (o : Output) : List String :=
  (o.lines.toList ++ o.pending.toList).map OutputLine.text

def isEmpty (o : Output) : Bool := o.lines.isEmpty && o.pending.isNone

end Output

end Footprint
