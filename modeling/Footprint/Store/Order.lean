import Footprint.Store.Equality
import Footprint.Value.Fault

set_option autoImplicit false

/-!
Comparisons: order, membership and what each comparison operator decides.
-/

namespace Footprint

/-- What ends with a value or a fault, or does not end. -/
abbrev Attempt (α : Type) := ExceptT Fault Option α

/-- What may not end, as an attempt without faults. -/
def attempt {α : Type} (o : Option α) : Attempt α := ExceptT.mk (o.map .ok)

/-- The order of two floats, if neither is NaN. -/
def floatOrder? (x y : Float) : Option Ordering :=
  if x < y then some .lt else if x == y then some .eq else if y < x then some .gt else none

/-- The order of two texts by code points. -/
def textOrder (a b : String) : Ordering := if a < b then .lt else if a = b then .eq else .gt

namespace Value

/-- The order of two values that are neither lists nor tuples. -/
def atomOrder (op : CompareOp) (a b : Value) : Except Fault (Option Ordering) :=
  match a, b with
  | .str s, .str t => .ok (some (textOrder s t))
  | _, _ =>
    match a.asInt?, b.asInt? with
    | some m, some n => .ok (some (compare m.toInt n.toInt))
    | _, _ =>
      match a.asFloat?, b.asFloat? with
      | some x, some y => .ok (floatOrder? x y)
      | _, _ => .error (.unordered op a.typeName b.typeName)

mutual

/-- The order of two values, `equal` deciding equality and `lists` the order of lists. -/
def orderWith (op : CompareOp) (equal : Value → Value → Option Bool)
    (lists : ListRef → ListRef → Attempt (Option Ordering)) :
    Value → Value → Attempt (Option Ordering)
  | .list a, .list b => lists a b
  | .tuple _ xs, .tuple _ ys => orderItemsWith op equal lists xs ys
  | a, b => ExceptT.mk (some (atomOrder op a b))

/-- The order of two sequences: that of their first unequal pair, and then that of their lengths. -/
def orderItemsWith (op : CompareOp) (equal : Value → Value → Option Bool)
    (lists : ListRef → ListRef → Attempt (Option Ordering)) :
    List Value → List Value → Attempt (Option Ordering)
  | [], [] => return some .eq
  | [], _ :: _ => return some .lt
  | _ :: _, [] => return some .gt
  | x :: xs, y :: ys => do
    if ← attempt (equal x y) then orderItemsWith op equal lists xs ys
    else orderWith op equal lists x y

end

end Value

/-- The order of two sequences, `order` giving that of their first unequal pair. -/
def orderOfItems (equal : Value → Value → Option Bool)
    (order : Value → Value → Attempt (Option Ordering)) :
    List Value → List Value → Attempt (Option Ordering)
  | [], [] => return some .eq
  | [], _ :: _ => return some .lt
  | _ :: _, [] => return some .gt
  | x :: xs, y :: ys => do
    if ← attempt (equal x y) then orderOfItems equal order xs ys else order x y

namespace Store

/-- The order of two values; pairs of lists may be nested `depth` deep. -/
def orderWithin (s : Store) (op : CompareOp) : Nat → Value → Value → Attempt (Option Ordering)
  | 0 => Value.orderWith op s.equal? fun _ _ => attempt none
  | depth + 1 => Value.orderWith op s.equal? fun a b =>
    orderOfItems s.equal? (s.orderWithin op depth) (s.items a).toList (s.items b).toList

/-- The order of two values, if they have one; `op` is named in the fault. -/
def order (s : Store) (op : CompareOp) (a b : Value) : Attempt (Option Ordering) :=
  s.orderWithin op s.pairDepth a b

end Store

/-- One list of characters occurs in another. -/
def occursIn (part : List Char) : List Char → Bool
  | [] => part.isEmpty
  | c :: cs => part.isPrefixOf (c :: cs) || occursIn part cs

namespace Store

def contains (s : Store) (container item : Value) : Attempt Bool :=
  match container with
  | .list r => attempt (s.anyEqual? item (s.items r).toList)
  | .tuple _ items => attempt (s.anyEqual? item items)
  | .str text =>
    match item with
    | .str part => return occursIn part.toList text.toList
    | v => throw (.substring v.typeName)
  | .range r => return item.asInt?.any r.contains
  | v => throw (.notContainer v.typeName)

/-- What a comparison operator decides. Values without an order are neither before nor after each
other. -/
def compare (s : Store) (op : CompareOp) (a b : Value) : Attempt Bool :=
  match op with
  | .eq => attempt (s.equal? a b)
  | .notEq => attempt ((s.equal? a b).map (!·))
  | .same => return a.isSame b
  | .notSame => return !a.isSame b
  | .isIn => s.contains b a
  | .notIn => do return !(← s.contains b a)
  | .lt => do return (← s.order op a b).any (· == .lt)
  | .le => do return (← s.order op a b).any (· != .gt)
  | .gt => do return (← s.order op a b).any (· == .gt)
  | .ge => do return (← s.order op a b).any (· != .lt)

end Store

end Footprint
