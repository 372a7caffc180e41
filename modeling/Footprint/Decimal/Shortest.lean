import Footprint.Binary64

set_option autoImplicit false

/-!
Shortest decimals: the fewest digits that read back as a given binary64 number, and of those the
nearest to it.
-/

namespace Footprint.Decimal

open Binary64

/-- A positive decimal `d.ddd * 10 ^ exponent`, its digits given as one number. -/
structure Scientific where
  digits : Nat
  exponent : Int
  deriving DecidableEq

/-- The positive reals that round to one number, in units of `1 / unit`; the ends round to it when
the mantissa is even. -/
structure Interval where
  low : Nat
  value : Nat
  high : Nat
  unit : Nat
  closed : Bool

/-- The interval of `mantissa * 2 ^ exponent`. The gap below a power of two is half the one above,
except at the smallest exponent. -/
def Interval.ofParts (mantissa : Nat) (exponent : Int) : Interval :=
  let below := if mantissa = Nat.pow 2 52 ∧ exponent ≠ -1074 then 1 else 2
  let scale (n : Nat) : Nat := (shifted n 1 (exponent - 2)).1
  { low := scale (4 * mantissa - below)
    value := scale (4 * mantissa)
    high := scale (4 * mantissa + 2)
    unit := (shifted 1 1 (exponent - 2)).2
    closed := mantissa % 2 = 0 }

/-- `n * 10 ^ t` in units of `1 / unit`, as numerator and denominator. -/
def gridPoint (unit n : Nat) (t : Int) : Nat × Nat :=
  if 0 ≤ t then (n * Nat.pow 10 t.toNat * unit, 1) else (n * unit, Nat.pow 10 (-t).toNat)

/-- The decimal `n * 10 ^ t` lies in the interval. -/
def Interval.holds (i : Interval) (n : Nat) (t : Int) : Bool :=
  let (a, b) := gridPoint i.unit n t
  if i.closed then i.low * b ≤ a && a ≤ i.high * b else i.low * b < a && a < i.high * b

/-- The largest `n` with `n * 10 ^ t` at most the interval's value. -/
def Interval.floorAt (i : Interval) (t : Int) : Nat :=
  let (a, b) := gridPoint i.unit 1 t
  i.value * b / a

/-- The largest `p` with `10 ^ p` at most the interval's value. -/
def Interval.floorLog10 (i : Interval) : Int :=
  let guess := (floorLog2 i.value i.unit * 30103).fdiv 100000
  if 10 ≤ i.floorAt guess then guess + 1
  else if i.floorAt guess = 0 then guess - 1
  else guess

/-- The point of the grid of step `10 ^ t` that reads back, the nearer one if two do. -/
def Interval.onGrid? (i : Interval) (t : Int) : Option Nat :=
  let n := i.floorAt t
  match i.holds n t, i.holds (n + 1) t with
  | true, true =>
    let (a, b) := gridPoint i.unit (2 * n + 1) t
    some (if 2 * i.value * b < a then n else n + 1)
  | true, false => some n
  | false, true => some (n + 1)
  | false, false => none

/-- `n` without its trailing zeros; `size` bounds how many are taken off. -/
def dropZeros : Nat → Nat → Nat
  | 0, n => n
  | size + 1, n => if n % 10 = 0 then dropZeros size (n / 10) else n

/-- The shortest decimal that reads back as the positive number `mantissa * 2 ^ exponent`. Seventeen
digits always suffice. -/
def shortest (mantissa : Nat) (exponent : Int) : Scientific :=
  let i := Interval.ofParts mantissa exponent
  let p := i.floorLog10
  let found := (List.range 17).findSome? fun (k : Nat) => (i.onGrid? (p - k)).map fun n => (n, k)
  match found with
  | some (n, k) => ⟨dropZeros (k + 1) n, if Nat.pow 10 (k + 1) ≤ n then p + 1 else p⟩
  | none => ⟨dropZeros 17 (i.floorAt (p - 16)), p⟩

end Footprint.Decimal
