import Footprint.Decimal.Shortest

set_option autoImplicit false

/-!
Layouts: how a shortest decimal is written, and a number with a fixed count of places.
-/

namespace Footprint.Decimal

open Binary64

/-- The choices of a format for binary64 numbers. -/
structure Layout where
  /-- The exponents written without an exponent mark. -/
  isPositional : Int → Bool
  /-- What follows an integral number that is written without an exponent mark. -/
  integralMark : String
  nanText : String

def digitsOf (n : Nat) : List Char := Nat.toDigits 10 n

/-- `d.ddd * 10 ^ exponent` without an exponent mark. -/
def positional (integralMark : String) (s : Scientific) : String :=
  let ds := digitsOf s.digits
  if s.exponent < 0 then
    String.ofList (['0', '.'] ++ List.replicate (-s.exponent - 1).toNat '0' ++ ds)
  else
    let whole := s.exponent.toNat + 1
    if ds.length ≤ whole then
      String.ofList (ds ++ List.replicate (whole - ds.length) '0') ++ integralMark
    else String.ofList (ds.take whole ++ ['.'] ++ ds.drop whole)

/-- `d.ddd` with a signed exponent of at least two digits. -/
def exponential (s : Scientific) : String :=
  let ds := digitsOf s.digits
  let mantissa := if ds.length ≤ 1 then ds else ds.take 1 ++ ['.'] ++ ds.drop 1
  let sign := if s.exponent < 0 then '-' else '+'
  let power := digitsOf s.exponent.natAbs
  String.ofList (mantissa ++ ['e', sign] ++ List.replicate (2 - power.length) '0' ++ power)

def signText (negative : Bool) : String := if negative then "-" else ""

def Layout.write (l : Layout) (x : Float) : String :=
  match parts x with
  | .nan => l.nanText
  | .infinite negative => signText negative ++ "inf"
  | .finite negative 0 _ => signText negative ++ "0" ++ l.integralMark
  | .finite negative m e =>
    let s := shortest m e
    signText negative ++
      if l.isPositional s.exponent then positional l.integralMark s else exponential s

/-- Numbers as tokens are named: never an exponent, integral ones without a point. -/
def plainLayout : Layout := ⟨fun _ => true, "", "NaN"⟩

/-- Numbers as scripts print them: positional from `10 ^ -4` up to below `10 ^ 16`, integral ones
with a final zero. -/
def scriptLayout : Layout := ⟨fun e => -4 ≤ e && e < 16, ".0", "nan"⟩

/-- A number with exactly `places` digits after the point, a tie going to the even digit. -/
def fixed (places : Nat) (x : Float) : String :=
  match parts x with
  | .nan => "NaN"
  | .infinite negative => signText negative ++ "inf"
  | .finite negative m e =>
    let (a, b) := shifted (m * Nat.pow 10 places) 1 e
    let n := roundHalfEven a b
    let ds := digitsOf n
    let ds := List.replicate (places + 1 - ds.length) '0' ++ ds
    let whole := ds.length - places
    let point := if places = 0 then [] else ['.']
    signText negative ++ String.ofList (ds.take whole ++ point ++ ds.drop whole)

end Footprint.Decimal
