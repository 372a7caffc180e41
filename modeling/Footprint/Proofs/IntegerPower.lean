import Footprint.Proofs.IntegerArithmetic
import Mathlib.Algebra.Order.Ring.Abs

set_option autoImplicit false

/-!
Powers of integers by repeated squaring. No product on the way has more than 64 bits unless the
power has, so powers are exact or report an overflow; but exponents of more than 32 bits are always
refused, also for the bases -1, 0 and 1.
-/

namespace Footprint

open Decimal

section

variable {m n : Int}

/-- A factor does not bring an integer back into 64 bits. -/
theorem not_fits_mul (outside : ¬FitsWord m) (hn : 1 ≤ n) : ¬FitsWord (m * n) := by
  rintro ⟨lower, upper⟩
  rcases le_or_gt 0 m with nonneg | neg
  · have le : m ≤ m * n := le_mul_of_one_le_right nonneg hn
    exact outside ⟨by omega, by omega⟩
  · have le : m * n ≤ m := by nlinarith
    exact outside ⟨by omega, by omega⟩

/-- A square without 64 bits lies strictly beyond them, as they end at no square. -/
theorem lt_square (outside : ¬FitsWord (n * n)) : 2 ^ 63 < n * n := by
  have nonneg := mul_self_nonneg n
  by_contra le
  have same : n * n = 2 ^ 63 := by omega
  rw [← abs_mul_abs_self] at same
  rcases le_or_gt |n| 3037000499 with small | large
  · nlinarith [abs_nonneg n]
  · nlinarith

/-- Such a square has no power and no multiple of 64 bits. -/
theorem not_fits_mul_square_pow {k : Nat} (hm : m ≠ 0) (outside : ¬FitsWord (n * n)) (hk : k ≠ 0) :
    ¬FitsWord (m * (n * n) ^ k) := by
  have beyond := lt_square outside
  have le : n * n ≤ (n * n) ^ k := le_self_pow₀ (by omega) hk
  rintro ⟨lower, upper⟩
  rcases Int.lt_or_gt_of_ne hm with neg | pos
  · nlinarith
  · nlinarith

end

/-! ### Repeated squaring -/

variable {acc base : Int64} {e : Nat}

theorem product?_eq_some_iff {a b c : Int64} :
    product? a b = some c ↔ c.toInt = a.toInt * b.toInt := narrow?_eq_some_iff

theorem product?_eq_none_iff {a b : Int64} :
    product? a b = none ↔ ¬FitsWord (a.toInt * b.toInt) := narrow?_eq_none_iff

theorem pow_eq_square_pow (b : Int) (e : Nat) : b ^ e = b ^ (e % 2) * (b * b) ^ (e / 2) := by
  rw [← pow_two, ← pow_mul, ← pow_add, Nat.mod_add_div]

/-- A power by squaring is a power of the square, the odd factor having been taken in. -/
theorem scaledPower?_of_half {square? : Option Int64} (zero : acc = 0 → base = 0) (he : e ≠ 0)
    (squared : square? = product? base base)
    (half : ∀ square : Int64, (acc = 0 → square = 0) → scaledPower? acc square (e / 2) =
      narrow? (acc.toInt * square.toInt ^ (e / 2))) :
    (if e = 1 then some acc else square?.bind fun square => scaledPower? acc square (e / 2)) =
      narrow? (acc.toInt * (base.toInt * base.toInt) ^ (e / 2)) := by
  split
  · next one =>
    subst one
    rw [show 1 / 2 = 0 from rfl, pow_zero, mul_one, narrow?_toInt]
  · next several =>
    cases square? with
    | some square =>
      have value := product?_eq_some_iff.1 squared.symm
      rw [← value]
      refine half square fun none => toInt_eq_zero_iff.1 ?_
      rw [value, zero none]
      rfl
    | none =>
      have outside := product?_eq_none_iff.1 squared.symm
      have nonzero : acc.toInt ≠ 0 := by
        intro none
        rw [zero (toInt_eq_zero_iff.1 none)] at outside
        exact outside (by decide)
      exact (narrow?_eq_none_iff.2 (not_fits_mul_square_pow nonzero outside (by omega))).symm

/-- The power by repeated squaring, if it has 64 bits. -/
theorem scaledPower?_eq (zero : acc = 0 → base = 0) :
    scaledPower? acc base e = narrow? (acc.toInt * base.toInt ^ e) := by
  induction e using Nat.strong_induction_on generalizing acc base with
  | _ e ih =>
    rw [scaledPower?]
    split
    · next none => rw [none, pow_zero, mul_one, narrow?_toInt]
    · next he =>
      have half {acc : Int64} (square : Int64) (zero : acc = 0 → square = 0) :
          scaledPower? acc square (e / 2) = narrow? (acc.toInt * square.toInt ^ (e / 2)) :=
        ih (e / 2) (by omega) zero
      rw [pow_eq_square_pow, ← mul_assoc]
      by_cases odd : e % 2 = 1
      · rw [if_pos odd, odd, pow_one]
        cases multiplied : product? acc base with
        | some acc' =>
          have value := product?_eq_some_iff.1 multiplied
          rw [← value]
          refine scaledPower?_of_half (fun none => ?_) he rfl half
          rw [none] at value
          rcases mul_eq_zero.1 value.symm with h | h
          · exact zero (toInt_eq_zero_iff.1 h)
          · exact toInt_eq_zero_iff.1 h
        | none =>
          have outside := product?_eq_none_iff.1 multiplied
          have nonzero : base.toInt ≠ 0 := by
            intro none
            rw [none, mul_zero] at outside
            exact outside (by decide)
          have positive : 0 < (base.toInt * base.toInt) ^ (e / 2) :=
            pow_pos (mul_self_pos.2 nonzero) _
          exact (narrow?_eq_none_iff.2 (not_fits_mul outside positive)).symm
      · rw [if_neg odd, show e % 2 = 0 by omega, pow_zero, mul_one]
        exact scaledPower?_of_half zero he rfl half

theorem isExact_scaledPower? (a : Int64) (e : Nat) :
    IsExact (a.toInt ^ e) (match scaledPower? 1 a e with
      | some n => .ok (.int n)
      | none => .error .integerOverflow) := by
  have power : scaledPower? 1 a e = narrow? ((1 : Int64).toInt * a.toInt ^ e) :=
    scaledPower?_eq fun none => absurd none (by decide)
  rw [show (1 : Int64).toInt = 1 by decide, one_mul] at power
  rw [power]
  split
  · next n found => exact .fits (narrow?_eq_some_iff.1 found)
  · next none => exact .overflows (narrow?_eq_none_iff.1 none) rfl

/-- A base beyond -1, 0 and 1 has no power of 64 bits with so large an exponent. -/
theorem not_fits_pow {n : Int} (hn : 1 < |n|) (he : 64 ≤ e) : ¬FitsWord (n ^ e) := by
  have large : 2 ^ 64 ≤ |n ^ e| := by
    calc (2 : Int) ^ 64 ≤ 2 ^ e := pow_le_pow_right₀ (by decide) he
      _ ≤ |n| ^ e := pow_le_pow_left₀ (by decide) hn e
      _ = |n ^ e| := (abs_pow n e).symm
  rintro ⟨lower, upper⟩
  have small : |n ^ e| ≤ 2 ^ 63 := abs_le.2 ⟨lower, upper.le⟩
  exact absurd (large.trans small) (by decide)

namespace Store

/-- A power of integers with an exponent that is not negative is exact or overflows, unless a base
of -1, 0 or 1 has an exponent of more than 32 bits; all such exponents are refused. -/
theorem power_exact (s : Store) {v w : Value} {a b : Int64} (hv : v.asInt? = some a)
    (hw : w.asInt? = some b) (hb : 0 ≤ b.toInt) :
    (¬(2 ^ 32 ≤ b.toInt ∧ |a.toInt| ≤ 1) → s.Computes .pow v w (a.toInt ^ b.toInt.toNat)) ∧
      (2 ^ 32 ≤ b.toInt → ∃ f : Fault, s.binary .pow v w = .error f ∧
        f.kind? = some "OverflowError") := by
  have unsigned : ¬b < 0 := by
    rw [lt_zero_iff]
    omega
  have refused (large : 2 ^ 32 ≤ b.toInt) : integerOp .pow a b = .error .integerOverflow := by
    have limit : b.toInt.toNat ≥ Nat.pow 2 32 := by
      have same : Nat.pow 2 32 = 2 ^ 32 := rfl
      omega
    rw [integerOp, if_neg unsigned, integerPower]
    exact if_pos limit
  constructor
  · intro ordinary
    refine .of_integerOp hv hw ?_
    rcases lt_or_ge b.toInt (2 ^ 32) with small | large
    · have limit : ¬b.toInt.toNat ≥ Nat.pow 2 32 := by
        have same : Nat.pow 2 32 = 2 ^ 32 := rfl
        omega
      rw [integerOp, if_neg unsigned, integerPower, if_neg limit]
      exact isExact_scaledPower? a b.toInt.toNat
    · rw [refused large]
      have beyond : 1 < |a.toInt| := lt_of_not_ge fun le => ordinary ⟨large, le⟩
      exact .overflows (not_fits_pow beyond (by omega)) rfl
  · intro large
    exact ⟨.integerOverflow, by rw [binary_of_asInt? .pow hv hw, refused large]; rfl, rfl⟩

/-- The least integer is a power. -/
theorem power_exact_least :
    Value.asInt? (.int (-2)) = some (-2) ∧ Value.asInt? (.int 63) = some 63 ∧
      0 ≤ (63 : Int64).toInt ∧ ¬(2 ^ 32 ≤ (63 : Int64).toInt ∧ |(-2 : Int64).toInt| ≤ 1) ∧
      Store.empty.Computes .pow (.int (-2)) (.int 63) ((-2) ^ 63) := by
  have computes := power_exact .empty (v := .int (-2)) (w := .int 63) rfl rfl (by decide)
  exact ⟨rfl, rfl, by decide, by decide, computes.1 (by decide)⟩

/-- The power of one is one whatever the exponent, but exponents beyond 32 bits are refused. -/
theorem power_of_one_refused :
    Store.empty.binary .pow (.int 1) (.int 4294967296) = .error .integerOverflow ∧
      ¬Store.empty.Computes .pow (.int 1) (.int 4294967296) (1 ^ 4294967296) := by
  have refused : Store.empty.binary .pow (.int 1) (.int 4294967296) = .error .integerOverflow := rfl
  refine ⟨refused, ?_⟩
  rintro ⟨r, same, exact⟩
  rw [one_pow] at exact
  cases exact with
  | fits => cases refused.symm.trans same
  | overflows outside => exact outside (by decide)

end Store

end Footprint
