import Footprint.Binary64

set_option autoImplicit false

/-!
Reading decimals: integers of 64 bits and binary64 numbers, each from the whole of a text.
-/

namespace Footprint.Decimal

open Binary64

def digitValue (c : Char) : Nat := c.toNat - '0'.toNat

def natOf (ds : List Char) : Nat := ds.foldl (fun n c => 10 * n + digitValue c) 0

/-- `n` as a 64-bit integer, when it is in their range. -/
def narrow? (n : Int) : Option Int64 :=
  if -Nat.pow 2 63 ≤ n ∧ n < Nat.pow 2 63 then some (.ofInt n) else none

theorem narrow?_toInt (n : Int64) : narrow? n.toInt = some n := by
  have bounds : -Nat.pow 2 63 ≤ n.toInt ∧ n.toInt < Nat.pow 2 63 := ⟨n.le_toInt, n.toInt_lt⟩
  rw [narrow?, if_pos bounds, Int64.ofInt_toInt]

theorem narrow?_eq_some_iff {n : Int} {w : Int64} : narrow? n = some w ↔ w.toInt = n := by
  constructor
  · intro h
    unfold narrow? at h
    split at h
    · next within =>
      cases h
      exact Int64.toInt_ofInt_of_le within.1 within.2
    · cases h
  · rintro rfl
    exact narrow?_toInt w

/-- An optional sign: whether it is a minus, and what follows. -/
def splitSign : List Char → Bool × List Char
  | '-' :: rest => (true, rest)
  | '+' :: rest => (false, rest)
  | cs => (false, cs)

/-- An optional sign and at least one digit, in the range of 64 bits. -/
def readInt? (cs : List Char) : Option Int64 :=
  let (negative, ds) := splitSign cs
  if ds.isEmpty || !ds.all Char.isDigit then none
  else narrow? (if negative then -(natOf ds) else natOf ds)

/-- The number nearest to `digits * 10 ^ exponent`. Exponents far outside the range of binary64 are
decided by the number of digits alone. -/
def nearest (negative : Bool) (digits : List Char) (exponent : Int) : Float :=
  let ds := digits.dropWhile (· = '0')
  let size : Int := ds.length + exponent
  ofMagnitude negative <|
    if ds.isEmpty || size < -330 then 0
    else if size > 310 then infinityBits
    else if 0 ≤ exponent then ofRatio (natOf ds * Nat.pow 10 exponent.toNat) 1
    else ofRatio (natOf ds) (Nat.pow 10 (-exponent).toNat)

/-- An exponent part: nothing, or a mark, an optional sign and at least one digit. -/
def readExponent? : List Char → Option Int
  | [] => some 0
  | c :: rest =>
    let (negative, ds) := splitSign rest
    if (c = 'e' ∨ c = 'E') ∧ !ds.isEmpty ∧ ds.all Char.isDigit then
      some (if negative then -(natOf ds) else natOf ds)
    else none

/-- Digits with an optional point, at least one of them, and an optional exponent. -/
def readUnsigned? (negative : Bool) (cs : List Char) : Option Float :=
  let (whole, rest) := cs.span Char.isDigit
  let (places, rest) :=
    match rest with
    | '.' :: rest => rest.span Char.isDigit
    | _ => ([], rest)
  if whole.isEmpty && places.isEmpty then none
  else (readExponent? rest).map fun e => nearest negative (whole ++ places) (e - places.length)

/-- A signed decimal, or the name of infinity or of the number that is none, in any case. -/
def readFloat? (cs : List Char) : Option Float :=
  let (negative, body) := splitSign cs
  match readUnsigned? negative body with
  | some x => some x
  | none =>
    let name := String.ofList (body.map Char.toLower)
    if name = "inf" || name = "infinity" then some (ofMagnitude negative infinityBits)
    else if name = "nan" then some (0.0 / 0.0)
    else none

end Footprint.Decimal
