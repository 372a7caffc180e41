import Footprint.Store.Basic

set_option autoImplicit false

/-!
Equality and order of values and membership in them. Where lists hold themselves these may not end;
then the functions here give `none`.
-/

namespace Footprint

namespace Value

/-- Two numbers are equal; integers are compared as such, and as floats only to a float. -/
def numbersEqual : Value → Value → Bool
  | .float x, b => b.asFloat?.any (x == ·)
  | a, .float y => a.asFloat?.any (· == y)
  | a, b => a.asInt? == b.asInt?

/-- Two values that are neither lists nor tuples are equal. -/
def atomsEqual : Value → Value → Bool
  | .range r, .range t => r == t
  | a, b => if a.isNumber && b.isNumber then numbersEqual a b else a.isSame b

mutual

/-- Two values are equal, `lists` deciding it for different lists. -/
def equalWith (lists : ListRef → ListRef → Option Bool) : Value → Value → Option Bool
  | .list a, .list b => if a = b then some true else lists a b
  | .tuple _ xs, .tuple _ ys =>
    if xs.length = ys.length then equalItemsWith lists xs ys else some false
  | a, b => some (atomsEqual a b)

/-- The values are equal in pairs; the first pair that is not decides. -/
def equalItemsWith (lists : ListRef → ListRef → Option Bool) :
    List Value → List Value → Option Bool
  | x :: xs, y :: ys => do
    if ← equalWith lists x y then equalItemsWith lists xs ys else return false
  | _, _ => some true

end

end Value

/-- The pairs are equal; the first one that is not decides. -/
def allEqual (equal : Value → Value → Option Bool) : List Value → List Value → Option Bool
  | x :: xs, y :: ys => do if ← equal x y then allEqual equal xs ys else return false
  | _, _ => some true

namespace Store

/-- Two values are equal; pairs of lists may be nested `depth` deep. -/
def equalWithin (s : Store) : Nat → Value → Value → Option Bool
  | 0 => Value.equalWith fun _ _ => none
  | depth + 1 => Value.equalWith fun a b =>
    if s.size a = s.size b then
      allEqual (s.equalWithin depth) (s.items a).toList (s.items b).toList
    else some false

/-- A depth of nested pairs of lists at which some pair has come back. -/
def pairDepth (s : Store) : Nat := s.lists.size * s.lists.size + 1

def equal? (s : Store) (a b : Value) : Option Bool := s.equalWithin s.pairDepth a b

def anyEqual? (s : Store) (v : Value) : List Value → Option Bool
  | [] => some false
  | x :: xs => do if ← s.equal? x v then return true else s.anyEqual? v xs

/-- The value is true where a condition is wanted. -/
def isTruthy (s : Store) : Value → Bool
  | .none => false
  | .bool b => b
  | .int n => n != 0
  | .float x => x != 0.0
  | .str t => !t.isEmpty
  | .list r => !(s.items r).isEmpty
  | .tuple _ items => !items.isEmpty
  | .range r => 0 < r.length
  | _ => true

end Store

end Footprint
