import Footprint.Decimal.Reading

set_option autoImplicit false

/-!
Arithmetic progressions of 64-bit integers.
-/

namespace Footprint

/-- The integers from `start` by steps of `step` that come before `stop`. -/
structure Range where
  start : Int64
  stop : Int64
  step : Int64
  deriving DecidableEq

namespace Range

/-- The number of integers in the progression; none if the step is zero. -/
def length (r : Range) : Nat :=
  let start := r.start.toInt
  let stop := r.stop.toInt
  let step := r.step.toInt
  if 0 < step then ((stop - start + step - 1) / step).toNat
  else if step < 0 then ((start - stop - step - 1) / -step).toNat
  else 0

/-- The first integer and the progression after it. Where the next one has no 64 bits, the
progression ends. -/
def next? (r : Range) : Option (Int64 × Range) :=
  if if 0 < r.step then r.start < r.stop else r.stop < r.start then
    let after := (Decimal.narrow? (r.start.toInt + r.step.toInt)).getD r.stop
    some (r.start, { r with start := after })
  else none

/-- The integer at a position, in 64-bit arithmetic. -/
def item (r : Range) (position : Nat) : Int64 :=
  r.start + r.step * Int64.ofNat position

def contains (r : Range) (n : Int64) : Bool :=
  let offset := n.toInt - r.start.toInt
  let step := r.step.toInt
  offset % step == 0 && 0 ≤ offset / step && offset / step < r.length

end Range

end Footprint
