import Footprint.Parser.Simple
import Footprint.Syntax.Binding
import Footprint.Token.Lexer

set_option autoImplicit false

/-!
Parsing statements with blocks, definitions and whole scripts. The first argument of each function
bounds the depth of the calls below it, as for expressions.
-/

namespace Footprint.Parser

open Token

/-- The parameters up to the closing parenthesis, `before` being those already read, last first. -/
def parameters : List Param → Nat → Parse (List Param)
  | _, 0 => failHere .nestingTooDeep
  | before, n + 1 => do
    if ← isAt (.symbol .closeParen) then return []
    else
      let p ← here
      let name ← identifier
      if before.any (·.name == name) then fail (.duplicateParameter name) p
      else
        let annotation ← following (.symbol .colon) (test n)
        let default ← following (.symbol .assign) (test n)
        if default.isNone && before.head?.any (·.default.isSome) then fail .defaultOrder p
        else
          let param : Param := ⟨name, annotation, default, p⟩
          if ← accept (.symbol .comma) then return param :: (← parameters (param :: before) n)
          else return [param]

/-- The decorators in front of a definition, each on a line of its own. -/
def decorators : Nat → Parse (List Expr)
  | 0 => failHere .nestingTooDeep
  | n + 1 => do
    if ← accept (.symbol .atSign) then
      let e ← test n
      expect .newline .decorator
      return e :: (← decorators n)
    else return []

def withItems : Nat → Parse (List WithItem)
  | 0 => failHere .nestingTooDeep
  | n + 1 => do
    let context ← test n
    let target ← following (.keyword .asKw) do
      let target ← arith n
      checkTargets .cannotAssign [target]
      return target
    if ← accept (.symbol .comma) then return ⟨context, target⟩ :: (← withItems n)
    else return [⟨context, target⟩]

/-- The class and the name of an except clause, up to its colon. -/
def caught (n : Nat) : Parse (Option Expr × Option String) := do
  if ← isAt (.symbol .colon) then return (none, none)
  else
    let kind ← test n
    let name ← following (.keyword .asKw) identifier
    return (some kind, name)

def baseClasses (n : Nat) : Parse (List Expr) := do
  if ← accept (.symbol .openParen) then
    let bases ← testsUntil .closeParen n
    expect (.symbol .closeParen) .baseClasses
    return bases
  else return []

/-- Parsers that number the definitions they pass; the state is the number of the next one. -/
abbrev Numbering := StateT CodeId Parse

/-- A number for a definition. -/
def freshCode : Numbering CodeId := fun n => return (n, n + 1)

mutual

/-- One statement, or the simple statements of one line. -/
def statement : Nat → Numbering (List Stmt)
  | 0 => failHere .nestingTooDeep
  | n + 1 => do
    let p ← here
    match ← peek with
    | .mark (.keyword .defKw) | .mark (.keyword .asyncKw) | .mark (.keyword .classKw)
    | .mark (.symbol .atSign) => return [← definition n]
    | .mark (.keyword .ifKw) => advance; return [← ifStatement n p]
    | .mark (.keyword .whileKw) =>
      advance
      let condition ← test n
      let body ← block n .whileTest
      let orelse ← elseBlock n
      return [.whileLoop condition body orelse p]
    | .mark (.keyword .forKw) =>
      advance
      let target ← targetList n
      checkTargets .cannotAssign [target]
      expect (.keyword .inKw) .forTarget
      let iter ← testList n
      let body ← block n .forClause
      let orelse ← elseBlock n
      return [.forLoop target iter body orelse p]
    | .mark (.keyword .tryKw) => advance; return [← tryStatement n p]
    | .mark (.keyword .withKw) =>
      advance
      let items ← withItems n
      let body ← block n .withItems
      return [.withBlock items body p]
    | .mark .indent => failHere .unexpectedIndent
    | .mark .dedent => failHere .unexpectedDedent
    | _ => simpleStatements n

/-- The block after a header, from its colon: statements on the same line or indented ones. -/
def block : Nat → Place → Numbering (List Stmt)
  | 0, _ => failHere .nestingTooDeep
  | n + 1, place => do
    expect (.symbol .colon) place
    if ← accept .newline then
      expect .indent place
      let body ← statements n
      expect .dedent place
      return body
    else simpleStatements n

/-- The statements up to the end of a block or of the script. -/
def statements : Nat → Numbering (List Stmt)
  | 0 => failHere .nestingTooDeep
  | n + 1 => do
    if (← isAt .dedent) || (← isAt .endOfFile) then return []
    else
      let first ← statement n
      return first ++ (← statements n)

def elseBlock : Nat → Numbering (List Stmt)
  | 0 => failHere .nestingTooDeep
  | n + 1 => do
    if ← accept (.keyword .elseKw) then block n .elseWord else return []

/-- The rest of an if statement; a further condition is an if statement in the else block. -/
def ifStatement : Nat → Position → Numbering Stmt
  | 0, _ => failHere .nestingTooDeep
  | n + 1, p => do
    let condition ← test n
    let body ← block n .ifTest
    let q ← here
    if ← accept (.keyword .elifKw) then
      return .cond condition body [← ifStatement n q] p
    else
      let orelse ← elseBlock n
      return .cond condition body orelse p

def handlers : Nat → Numbering (List Handler)
  | 0 => failHere .nestingTooDeep
  | n + 1 => do
    let p ← here
    if ← accept (.keyword .exceptKw) then
      let (kind, name) ← caught n
      let body ← block n .exceptClause
      return .clause kind name body p :: (← handlers n)
    else return []

def tryStatement : Nat → Position → Numbering Stmt
  | 0, _ => failHere .nestingTooDeep
  | n + 1, p => do
    let body ← block n .tryWord
    let clauses ← handlers n
    let orelse ← if clauses.isEmpty then pure [] else elseBlock n
    let final ← if ← accept (.keyword .finallyKw) then block n .finallyWord else pure []
    if clauses.isEmpty && final.isEmpty then failHere .missingHandler
    else return .tryBlock body clauses orelse final p

def definition : Nat → Numbering Stmt
  | 0 => failHere .nestingTooDeep
  | n + 1 => do
    let ds ← decorators n
    let p ← here
    match ← peek with
    | .mark (.keyword .defKw) =>
      advance
      functionDefinition n false ds p
    | .mark (.keyword .asyncKw) =>
      advance
      expect (.keyword .defKw) .asyncWord
      functionDefinition n true ds p
    | .mark (.keyword .classKw) =>
      advance
      classDefinition n ds p
    | _ => failFound .missingDefinition

def functionDefinition : Nat → Bool → List Expr → Position → Numbering Stmt
  | 0, _, _, _ => failHere .nestingTooDeep
  | n + 1, isAsync, ds, p => do
    let name ← identifier
    let code ← freshCode
    expect (.symbol .openParen) .functionName
    let params ← parameters [] n
    expect (.symbol .closeParen) .parameters
    let returns ← following (.symbol .arrow) (test n)
    let body ← block n .functionBody
    let endLine ← lastLine
    return .function
      { name, isAsync, params, decorators := ds, returns, code, bound := .ofFunction params body,
        pos := p, endLine } body

def classDefinition : Nat → List Expr → Position → Numbering Stmt
  | 0, _, _ => failHere .nestingTooDeep
  | n + 1, ds, p => do
    let name ← identifier
    let code ← freshCode
    let bases ← baseClasses n
    let body ← block n .classBody
    let endLine ← lastLine
    return .classDef { name, bases, decorators := ds, code, pos := p, endLine } body

end

def program : Nat → Numbering (List Stmt)
  | 0 => failHere .nestingTooDeep
  | n + 1 => do
    if ← isAt .endOfFile then return []
    else
      let first ← statement n
      return first ++ (← program n)

/-- Depth enough for a script of so many tokens: between two tokens that are passed, fewer than
twenty calls are nested. -/
def depthFor (tokens : Nat) : Nat := 20 * (tokens + 2)

end Footprint.Parser

namespace Footprint

def parse (source : String) : Except Parser.Error Script :=
  match tokenize source with
  | .error e => .error ⟨.lexical e.fault, e.pos⟩
  | .ok tokens =>
    let script := (Parser.program (Parser.depthFor tokens.length)).run (topCode + 1)
    (script.run (.ofTokens tokens)).map fun r => ⟨r.1.1⟩

end Footprint
