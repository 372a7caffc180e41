set_option autoImplicit false

/-!
Binary64 numbers taken apart and put together in exact integer arithmetic: the nearest number to a
quotient, and the exact remainder of a division.
-/

namespace Footprint.Binary64

/-- What the bits of a number say; a finite one is `mantissa * 2 ^ exponent` up to its sign. -/
inductive Parts where
  | nan
  | infinite (negative : Bool)
  | finite (negative : Bool) (mantissa : Nat) (exponent : Int)
  deriving DecidableEq

/-- The parts of a number, from its sign, eleven exponent bits and 52 fraction bits. -/
def Parts.ofBits (bits : UInt64) : Parts :=
  let n := bits.toNat
  let negative := n / Nat.pow 2 63 == 1
  let biased : Nat := n / Nat.pow 2 52 % Nat.pow 2 11
  let fraction : Nat := n % Nat.pow 2 52
  if biased = 2047 then if fraction = 0 then .infinite negative else .nan
  else if biased = 0 then .finite negative fraction (-1074)
  else .finite negative (Nat.pow 2 52 + fraction) (biased - 1075)

def parts (x : Float) : Parts := .ofBits x.toBits

/-- The number nearest to an integer; the magnitude of the least integer fits without a sign. -/
def ofInt64 (n : Int64) : Float := if n < 0 then -(-n).toUInt64.toFloat else n.toUInt64.toFloat

/-- The bits of infinity; those of all finite magnitudes are smaller. -/
def infinityBits : Nat := 2047 * Nat.pow 2 52

/-- `a * 2 ^ i` over `b * 2 ^ j` as a quotient of natural numbers, given `i - j`. -/
def shifted (a b : Nat) (shift : Int) : Nat × Nat :=
  if 0 ≤ shift then (a * Nat.pow 2 shift.toNat, b) else (a, b * Nat.pow 2 (-shift).toNat)

/-- The largest `k` with `2 ^ k ≤ num / den`, for positive arguments. -/
def floorLog2 (num den : Nat) : Int :=
  let k : Int := (num.log2 : Int) - den.log2
  let (a, b) := shifted num den (-k)
  if b ≤ a then k else k - 1

/-- The quotient rounded to the nearest natural number, a tie to the even one. -/
def roundHalfEven (num den : Nat) : Nat :=
  let q := num / den
  let r := num % den
  if 2 * r > den || (2 * r == den && q % 2 == 1) then q + 1 else q

/-- The bits of the number nearest to `num / den`, ties to the even mantissa. -/
def ofRatio (num den : Nat) : Nat :=
  if num = 0 then 0
  else
    let exponent := max (floorLog2 num den - 52) (-1074)
    let (a, b) := shifted num den (-exponent)
    let mantissa := roundHalfEven a b
    if mantissa < Nat.pow 2 52 then mantissa
    else min ((exponent + 1075).toNat * Nat.pow 2 52 + (mantissa - Nat.pow 2 52)) infinityBits

def ofMagnitude (negative : Bool) (bits : Nat) : Float :=
  .ofBits (UInt64.ofNat ((if negative then Nat.pow 2 63 else 0) + bits))

/-- The remainder of `x / y` with the quotient rounded toward zero: exact, with the sign of `x`. -/
def rem (x y : Float) : Float :=
  match parts x, parts y with
  | .finite negative a i, .finite _ b j =>
    if b = 0 then 0.0 / 0.0
    else
      let low := min i j
      let r := (a * Nat.pow 2 (i - low).toNat) % (b * Nat.pow 2 (j - low).toNat)
      let (num, den) := shifted r 1 low
      ofMagnitude negative (ofRatio num den)
  | .finite .., .infinite _ => x
  | _, _ => 0.0 / 0.0

def trunc (x : Float) : Float := if x < 0.0 then x.ceil else x.floor

/-- The number is not integral: it differs from its integral part by something other than zero. -/
def hasFraction (x : Float) : Bool := x - trunc x != 0.0

end Footprint.Binary64
