import Footprint.Parser.Cursor

set_option autoImplicit false

/-!
Parsing expressions, one function for each level of the grammar:

    test       ::= orTest ["if" orTest "else" test]
    orTest     ::= andTest ("or" andTest)*
    andTest    ::= notTest ("and" notTest)*
    notTest    ::= "not" notTest | comparison
    comparison ::= arith (compareOp arith)*
    arith      ::= term (("+" | "-") term)*
    term       ::= factor (("*" | "/" | "//" | "%") factor)*
    factor     ::= ("+" | "-") factor | power
    power      ::= primary ["**" factor]
    primary    ::= atom trailer*

The first argument of each function bounds the depth of the calls below it; `Parser.depthFor` gives
enough of it for the tokens at hand.
-/

namespace Footprint.Parser

open Token

/-- Passes a comparison operator, if one is ahead; two of them take two tokens. -/
def compareOp? : Parse (Option CompareOp) := do
  match ← peek with
  | .mark (.symbol .equal) => advance; return some .eq
  | .mark (.symbol .notEqual) => advance; return some .notEq
  | .mark (.symbol .less) => advance; return some .lt
  | .mark (.symbol .lessEqual) => advance; return some .le
  | .mark (.symbol .greater) => advance; return some .gt
  | .mark (.symbol .greaterEqual) => advance; return some .ge
  | .mark (.keyword .inKw) => advance; return some .isIn
  | .mark (.keyword .notKw) =>
    match ← peekSecond with
    | some (.mark (.keyword .inKw)) => advance; advance; return some .notIn
    | _ => return none
  | .mark (.keyword .isKw) =>
    advance
    return some (if ← accept (.keyword .notKw) then .notSame else .same)
  | _ => return none

def arithOp? : Kind → Option BinaryOp
  | .mark (.symbol .plus) => some .add
  | .mark (.symbol .minus) => some .sub
  | _ => none

def termOp? : Kind → Option BinaryOp
  | .mark (.symbol .star) => some .mul
  | .mark (.symbol .slash) => some .div
  | .mark (.symbol .doubleSlash) => some .floorDiv
  | .mark (.symbol .percent) => some .mod
  | _ => none

def signOp? : Kind → Option UnaryOp
  | .mark (.symbol .minus) => some .neg
  | .mark (.symbol .plus) => some .pos
  | _ => none

/-- A name followed by an assignment sign is ahead. -/
def isAtKeywordArgument : Parse Bool := do
  match ← peek, ← peekSecond with
  | .name _, some (.mark (.symbol .assign)) => return true
  | _, _ => return false

def adjacentStrings : Nat → Parse String
  | 0 => failHere .nestingTooDeep
  | n + 1 => do
    match ← peek with
    | .str s =>
      advance
      return s ++ (← adjacentStrings n)
    | _ => return ""

mutual

/-- One test, or a tuple of them if a comma follows the first. -/
def testList : Nat → Parse Expr
  | 0 => failHere .nestingTooDeep
  | n + 1 => do
    let first ← test n
    if ← isAt (.symbol .comma) then
      return .tuple (first :: (← moreTests n)) first.pos
    else return first

/-- The tests that follow one, each after a comma; a last comma may stand alone. -/
def moreTests : Nat → Parse (List Expr)
  | 0 => failHere .nestingTooDeep
  | n + 1 => do
    if ← accept (.symbol .comma) then
      if ← isAtExpression then
        let e ← test n
        return e :: (← moreTests n)
      else return []
    else return []

def test : Nat → Parse Expr
  | 0 => failHere .nestingTooDeep
  | n + 1 => do
    let body ← orTest n
    if ← accept (.keyword .ifKw) then
      let condition ← orTest n
      expect (.keyword .elseKw) .conditional
      let orelse ← test n
      return .choice condition body orelse body.pos
    else return body

def orTest : Nat → Parse Expr
  | 0 => failHere .nestingTooDeep
  | n + 1 => do
    let first ← andTest n
    match ← moreOr n with
    | [] => return first
    | others => return .logic .or (first :: others) first.pos

def moreOr : Nat → Parse (List Expr)
  | 0 => failHere .nestingTooDeep
  | n + 1 => do
    if ← accept (.keyword .orKw) then
      let e ← andTest n
      return e :: (← moreOr n)
    else return []

def andTest : Nat → Parse Expr
  | 0 => failHere .nestingTooDeep
  | n + 1 => do
    let first ← notTest n
    match ← moreAnd n with
    | [] => return first
    | others => return .logic .and (first :: others) first.pos

def moreAnd : Nat → Parse (List Expr)
  | 0 => failHere .nestingTooDeep
  | n + 1 => do
    if ← accept (.keyword .andKw) then
      let e ← notTest n
      return e :: (← moreAnd n)
    else return []

def notTest : Nat → Parse Expr
  | 0 => failHere .nestingTooDeep
  | n + 1 => do
    let p ← here
    if ← accept (.keyword .notKw) then
      return .unary .not (← notTest n) p
    else comparison n

def comparison : Nat → Parse Expr
  | 0 => failHere .nestingTooDeep
  | n + 1 => do
    let left ← arith n
    match ← moreLinks n with
    | [] => return left
    | links => return .compare left links left.pos

def moreLinks : Nat → Parse (List (CompareOp × Expr))
  | 0 => failHere .nestingTooDeep
  | n + 1 => do
    match ← compareOp? with
    | some op =>
      let e ← arith n
      return (op, e) :: (← moreLinks n)
    | none => return []

def arith : Nat → Parse Expr
  | 0 => failHere .nestingTooDeep
  | n + 1 => do
    let left ← term n
    moreTerms n left

/-- The sum that begins with `left`. -/
def moreTerms : Nat → Expr → Parse Expr
  | 0, _ => failHere .nestingTooDeep
  | n + 1, left => do
    match arithOp? (← peek) with
    | some op =>
      advance
      let right ← term n
      moreTerms n (.binary op left right left.pos)
    | none => return left

def term : Nat → Parse Expr
  | 0 => failHere .nestingTooDeep
  | n + 1 => do
    let left ← factor n
    moreFactors n left

/-- The product that begins with `left`. -/
def moreFactors : Nat → Expr → Parse Expr
  | 0, _ => failHere .nestingTooDeep
  | n + 1, left => do
    match termOp? (← peek) with
    | some op =>
      advance
      let right ← factor n
      moreFactors n (.binary op left right left.pos)
    | none => return left

def factor : Nat → Parse Expr
  | 0 => failHere .nestingTooDeep
  | n + 1 => do
    let p ← here
    match signOp? (← peek) with
    | some op =>
      advance
      return .unary op (← factor n) p
    | none => power n

def power : Nat → Parse Expr
  | 0 => failHere .nestingTooDeep
  | n + 1 => do
    let base ← primary n
    if ← accept (.symbol .doubleStar) then
      return .binary .pow base (← factor n) base.pos
    else return base

def primary : Nat → Parse Expr
  | 0 => failHere .nestingTooDeep
  | n + 1 => do
    let e ← atom n
    trailers n e

def trailers : Nat → Expr → Parse Expr
  | 0, _ => failHere .nestingTooDeep
  | n + 1, e => do
    if ← accept (.symbol .openParen) then
      let args ← arguments n
      expect (.symbol .closeParen) .arguments
      trailers n (.call e args e.pos)
    else if ← accept (.symbol .openBracket) then
      let index ← testList n
      expect (.symbol .closeBracket) .subscript
      trailers n (.subscript e index e.pos)
    else if ← accept (.symbol .dot) then
      let attr ← identifier
      trailers n (.member e attr e.pos)
    else return e

/-- Arguments up to the closing parenthesis. -/
def arguments : Nat → Parse (List Expr)
  | 0 => failHere .nestingTooDeep
  | n + 1 => do
    if ← isAt (.symbol .closeParen) then return []
    else if ← isAtKeywordArgument then failHere .keywordArgument
    else
      let e ← test n
      if ← accept (.symbol .comma) then return e :: (← arguments n) else return [e]

/-- Tests separated by commas up to the closing symbol. -/
def testsUntil : Symbol → Nat → Parse (List Expr)
  | _, 0 => failHere .nestingTooDeep
  | close, n + 1 => do
    if ← isAt (.symbol close) then return []
    else
      let e ← test n
      if ← accept (.symbol .comma) then return e :: (← testsUntil close n) else return [e]

def atom : Nat → Parse Expr
  | 0 => failHere .nestingTooDeep
  | n + 1 => do
    let p ← here
    match ← peek with
    | .int v => advance; return .const (.int v) p
    | .float v => advance; return .const (.float v) p
    | .mark (.keyword .trueKw) => advance; return .const (.bool true) p
    | .mark (.keyword .falseKw) => advance; return .const (.bool false) p
    | .mark (.keyword .noneKw) => advance; return .const .none p
    | .name id => advance; return .name id p
    | .str _ => return .const (.str (← adjacentStrings n)) p
    | .mark (.symbol .openParen) =>
      advance
      if ← accept (.symbol .closeParen) then return .tuple [] p
      else
        let first ← test n
        if ← accept (.symbol .comma) then
          let others ← testsUntil .closeParen n
          expect (.symbol .closeParen) .tuple
          return .tuple (first :: others) p
        else
          expect (.symbol .closeParen) .parenthesis
          return first
    | .mark (.symbol .openBracket) =>
      advance
      let items ← testsUntil .closeBracket n
      expect (.symbol .closeBracket) .listItems
      return .list items p
    | _ => failFound .missingExpression

end

/-- The targets that follow one, each after a comma; a last comma may stand alone. -/
def moreTargets : Nat → Parse (List Expr)
  | 0 => failHere .nestingTooDeep
  | n + 1 => do
    if ← accept (.symbol .comma) then
      if ← isAtExpression then
        let e ← arith n
        return e :: (← moreTargets n)
      else return []
    else return []

/-- The target of a loop: a sum, so that the word "in" is left, or a tuple of them. -/
def targetList (n : Nat) : Parse Expr := do
  let first ← arith n
  if ← isAt (.symbol .comma) then
    return .tuple (first :: (← moreTargets n)) first.pos
  else return first

end Footprint.Parser
