import Footprint.Parser.Expr

set_option autoImplicit false

/-!
Parsing simple statements: assignments, jumps, imports, declarations and bare expressions.
-/

namespace Footprint.Parser

open Token

/-- Fails at the first of the targets that may not be assigned to. -/
def checkTargets (f : Fault) : List Expr → Parse Unit
  | [] => return ()
  | e :: es => if e.isAssignable then checkTargets f es else fail f e.pos

/-- Fails if the target is not a name, an attribute or a subscript. -/
def checkSingle (f : Fault) (e : Expr) : Parse Unit :=
  if e.isSingleTarget then return () else fail f e.pos

/-- The operator of an augmented assignment, if its sign is ahead. -/
def augmentOp? : Kind → Option BinaryOp
  | .mark (.symbol .plusAssign) => some .add
  | .mark (.symbol .minusAssign) => some .sub
  | .mark (.symbol .starAssign) => some .mul
  | .mark (.symbol .slashAssign) => some .div
  | .mark (.symbol .doubleSlashAssign) => some .floorDiv
  | .mark (.symbol .percentAssign) => some .mod
  | .mark (.symbol .doubleStarAssign) => some .pow
  | _ => none

/-- The names that follow one, each after a comma. -/
def moreNames : Nat → Parse (List String)
  | 0 => failHere .nestingTooDeep
  | n + 1 => do
    if ← accept (.symbol .comma) then
      let name ← identifier
      return name :: (← moreNames n)
    else return []

def nameList (n : Nat) : Parse (List String) := do
  let name ← identifier
  return name :: (← moreNames n)

/-- The components that follow one, each after a dot, with the dots. -/
def moreComponents : Nat → Parse String
  | 0 => failHere .nestingTooDeep
  | n + 1 => do
    if ← accept (.symbol .dot) then
      let name ← identifier
      return "." ++ name ++ (← moreComponents n)
    else return ""

def dottedName (n : Nat) : Parse String := do
  let name ← identifier
  return name ++ (← moreComponents n)

/-- A name to import, read by `name`, and the name it is bound to. -/
def importItem (name : Parse String) : Parse Import := do
  let p ← here
  let name ← name
  let asName ← following (.keyword .asKw) identifier
  return ⟨name, asName, p⟩

def moreImports (name : Parse String) : Nat → Parse (List Import)
  | 0 => failHere .nestingTooDeep
  | n + 1 => do
    if ← accept (.symbol .comma) then
      let item ← importItem name
      return item :: (← moreImports name n)
    else return []

def importList (name : Parse String) (n : Nat) : Parse (List Import) := do
  let item ← importItem name
  return item :: (← moreImports name n)

/-- The imports in parentheses, the last of which may have a comma after it. -/
def enclosedImports : Nat → Parse (List Import)
  | 0 => failHere .nestingTooDeep
  | n + 1 => do
    let item ← importItem identifier
    if ← accept (.symbol .comma) then
      if ← isAt (.symbol .closeParen) then return [item]
      else return item :: (← enclosedImports n)
    else return [item]

def leadingDots : Nat → Parse String
  | 0 => failHere .nestingTooDeep
  | n + 1 => do
    if ← accept (.symbol .dot) then return "." ++ (← leadingDots n) else return ""

/-- The module of an import of members: dots, a name or both. -/
def moduleName (n : Nat) : Parse String := do
  let dots ← leadingDots n
  if ← isAt (.keyword .importKw) then return dots else return dots ++ (← dottedName n)

def importFrom (n : Nat) (p : Position) : Parse Stmt := do
  let source ← moduleName n
  expect (.keyword .importKw) .moduleName
  let star ← here
  if ← accept (.symbol .star) then return .importFrom source [⟨"*", none, star⟩] p
  else if ← accept (.symbol .openParen) then
    let names ← enclosedImports n
    expect (.symbol .closeParen) .importedNames
    return .importFrom source names p
  else return .importFrom source (← importList identifier n) p

/-- The targets that follow one in a deletion, each after a comma. -/
def moreDeleted : Nat → Parse (List Expr)
  | 0 => failHere .nestingTooDeep
  | n + 1 => do
    if ← accept (.symbol .comma) then
      if ← isAtStatementEnd then return []
      else
        let e ← test n
        return e :: (← moreDeleted n)
    else return []

/-- What follows an assignment sign: further targets and the value. -/
def assigned : Nat → Parse (List Expr × Expr)
  | 0 => failHere .nestingTooDeep
  | n + 1 => do
    let next ← testList n
    if ← accept (.symbol .assign) then
      let (targets, value) ← assigned n
      return (next :: targets, value)
    else return ([], next)

/-- A bare expression or an assignment of one of the three forms. -/
def expressionStatement (n : Nat) (p : Position) : Parse Stmt := do
  let first ← testList n
  if ← accept (.symbol .assign) then
    let (targets, value) ← assigned n
    checkTargets .cannotAssign (first :: targets)
    return .assign (first :: targets) value p
  else
    match augmentOp? (← peek) with
    | some op =>
      advance
      checkSingle .augmentedTarget first
      return .augment first op (← testList n) p
    | none =>
      if ← accept (.symbol .colon) then
        checkSingle .annotatedTarget first
        let annotation ← test n
        let value ← following (.symbol .assign) (testList n)
        return .annotate first annotation value p
      else return .expr first p

def smallStatement (n : Nat) : Parse Stmt := do
  let p ← here
  match ← peek with
  | .mark (.keyword .passKw) => advance; return .pass p
  | .mark (.keyword .breakKw) => advance; return .brk p
  | .mark (.keyword .continueKw) => advance; return .cont p
  | .mark (.keyword .returnKw) =>
    advance
    if ← isAtStatementEnd then return .ret none p
    else return .ret (some (← testList n)) p
  | .mark (.keyword .delKw) =>
    advance
    let first ← test n
    let targets := first :: (← moreDeleted n)
    checkTargets .cannotDelete targets
    return .delete targets p
  | .mark (.keyword .raiseKw) =>
    advance
    if ← isAtStatementEnd then return .raise none p
    else return .raise (some (← test n)) p
  | .mark (.keyword .assertKw) =>
    advance
    let condition ← test n
    let message ← following (.symbol .comma) (test n)
    return .assert condition message p
  | .mark (.keyword .importKw) =>
    advance
    return .importNames (← importList (dottedName n) n) p
  | .mark (.keyword .fromKw) =>
    advance
    importFrom n p
  | .mark (.keyword .globalKw) =>
    advance
    return .globalDecl (← nameList n) p
  | .mark (.keyword .nonlocalKw) =>
    advance
    return .nonlocalDecl (← nameList n) p
  | _ => expressionStatement n p

/-- The statements that follow one on its line, each after a semicolon; a last one may
stand alone. -/
def moreSmall : Nat → Parse (List Stmt)
  | 0 => failHere .nestingTooDeep
  | n + 1 => do
    if ← accept (.symbol .semicolon) then
      if (← isAt .newline) || (← isAt .endOfFile) then return []
      else
        let s ← smallStatement n
        return s :: (← moreSmall n)
    else return []

def simpleStatements (n : Nat) : Parse (List Stmt) := do
  let first ← smallStatement n
  let others ← moreSmall n
  if ← isAt .endOfFile then pure () else expect .newline .statement
  return first :: others

end Footprint.Parser
