import Footprint.Value.Basic
import Footprint.Value.Range

set_option autoImplicit false

/-!
The values that an iteration goes through: those of a sequence, fixed when it begins, or those of a
progression, made one by one.
-/

namespace Footprint

inductive Items where
  | values (vs : List Value)
  | progression (r : Range)

namespace Items

def next? : Items → Option (Value × Items)
  | values [] => none
  | values (v :: vs) => some (v, values vs)
  | progression r => r.next?.map fun (n, rest) => (.int n, progression rest)

/-- A number of steps after which no value is left. -/
def length : Items → Nat
  | values vs => vs.length
  | progression r => r.length

def take : Nat → Items → List Value
  | 0, _ => []
  | n + 1, i =>
    match i.next? with
    | some (v, rest) => v :: rest.take n
    | none => []

/-- Goes through at most `n` values, `step` taking each. -/
def foldUpTo {m : Type → Type} [Monad m] {α : Type} (step : α → Value → m α) :
    Nat → α → Items → m α
  | 0, a, _ => pure a
  | n + 1, a, i =>
    match i.next? with
    | some (v, rest) => do foldUpTo step n (← step a v) rest
    | none => pure a

@[inline] def fold {m : Type → Type} [Monad m] {α : Type} (step : α → Value → m α) (a : α)
    (i : Items) : m α :=
  foldUpTo step i.length a i

end Items

end Footprint
