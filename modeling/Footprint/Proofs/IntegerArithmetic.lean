import Footprint.Machine.Builtin
import Mathlib.Tactic.Linarith

set_option autoImplicit false

/-!
Integer arithmetic is exact or reports an overflow. Sums, differences and products of 64-bit
integers are those of the integers; quotients are rounded to the floor, and the corrections that
this takes never leave 64 bits.
-/

namespace Footprint

open Decimal

/-- The integer has 64 bits. -/
abbrev FitsWord (n : Int) : Prop := -2 ^ 63 ≤ n ∧ n < 2 ^ 63

/-- What comes out is the integer if it has 64 bits, and else an overflow is raised. -/
inductive IsExact (n : Int) : Except Fault Value → Prop
  | fits {w : Int64} (same : w.toInt = n) : IsExact n (.ok (.int w))
  | overflows {f : Fault} (outside : ¬FitsWord n) (kind : f.kind? = some "OverflowError") :
      IsExact n (.error f)

theorem narrow?_eq_none_iff {n : Int} : narrow? n = none ↔ ¬FitsWord n := by
  unfold narrow?
  split
  · next within => exact iff_of_false (Option.some_ne_none _) fun outside => outside within
  · next outside => exact iff_of_true rfl outside

theorem isExact_narrow (n : Int) : IsExact n (narrow n) := by
  unfold narrow
  split
  · next w found => exact .fits (narrow?_eq_some_iff.1 found)
  · next none => exact .overflows (narrow?_eq_none_iff.1 none) rfl

/-! ### Division to the floor -/

section

variable {a b : Int}

theorem natAbs_tmod_lt (a : Int) (hb : b ≠ 0) : (a.tmod b).natAbs < b.natAbs := by
  rw [Int.natAbs_tmod]
  exact Nat.mod_lt _ (Int.natAbs_pos.2 hb)

/-- What remains of the division toward zero has the sign of the dividend. -/
theorem tmod_neg_iff (h : a.tmod b ≠ 0) : a.tmod b < 0 ↔ a < 0 := by
  rcases lt_or_ge a 0 with neg | nonneg
  · have le := Int.tmod_nonneg b (Int.neg_nonneg_of_nonpos neg.le)
    rw [Int.neg_tmod] at le
    omega
  · have le := Int.tmod_nonneg b nonneg
    omega

/-- Where something remains that has not the divisor's sign, the quotient to the floor is one less
than that toward zero. -/
theorem fdiv_fmod_of_unlike (hb : b ≠ 0) (remains : a.tmod b ≠ 0)
    (unlike : ¬(a.tmod b < 0 ↔ b < 0)) :
    a.fdiv b = a.tdiv b - 1 ∧ a.fmod b = a.tmod b + b := by
  have sum := Int.tmod_add_mul_tdiv a b
  have small := natAbs_tmod_lt a hb
  rcases Int.lt_or_gt_of_ne hb with neg | pos
  · refine (Int.fdiv_fmod_unique' neg).2 ⟨?_, by omega, by omega⟩
    rw [mul_sub]
    omega
  · refine (Int.fdiv_fmod_unique pos).2 ⟨?_, by omega, by omega⟩
    rw [mul_sub]
    omega

/-- Elsewhere the two divisions agree. -/
theorem fdiv_fmod_of_like (hb : b ≠ 0) (like : a.tmod b = 0 ∨ (a.tmod b < 0 ↔ b < 0)) :
    a.fdiv b = a.tdiv b ∧ a.fmod b = a.tmod b := by
  have sum := Int.tmod_add_mul_tdiv a b
  have small := natAbs_tmod_lt a hb
  rcases Int.lt_or_gt_of_ne hb with neg | pos
  · exact (Int.fdiv_fmod_unique' neg).2 ⟨sum, by omega, by omega⟩
  · exact (Int.fdiv_fmod_unique pos).2 ⟨sum, by omega, by omega⟩

theorem fmod_bounds (a : Int) (hb : b ≠ 0) :
    (a.fmod b = 0 ∨ (a.fmod b < 0 ↔ b < 0)) ∧ |a.fmod b| < |b| := by
  rcases Int.lt_or_gt_of_ne hb with neg | pos
  · obtain ⟨-, lower, upper⟩ := (Int.fdiv_fmod_unique' (a := a) neg).1 ⟨rfl, rfl⟩
    rw [abs_of_neg neg, abs_of_nonpos upper]
    omega
  · obtain ⟨-, lower, upper⟩ := (Int.fdiv_fmod_unique (a := a) pos).1 ⟨rfl, rfl⟩
    rw [abs_of_pos pos, abs_of_nonneg lower]
    omega

end

/-! ### Division in 64 bits -/

section

variable {a b : Int64}

theorem toInt_eq_zero_iff : b.toInt = 0 ↔ b = 0 := Int64.toInt_inj (y := 0)

theorem lt_zero_iff : a < 0 ↔ a.toInt < 0 := Int64.lt_iff_toInt_lt

/-- A sum of 64 bits does not wrap. -/
theorem toInt_add_of_bounds (lower : -2 ^ 63 ≤ a.toInt + b.toInt)
    (upper : a.toInt + b.toInt < 2 ^ 63) : (a + b).toInt = a.toInt + b.toInt := by
  rw [Int64.toInt_add, Int.bmod_eq_of_le] <;> omega

theorem toInt_sub_of_bounds (lower : -2 ^ 63 ≤ a.toInt - b.toInt)
    (upper : a.toInt - b.toInt < 2 ^ 63) : (a - b).toInt = a.toInt - b.toInt := by
  rw [Int64.toInt_sub, Int.bmod_eq_of_le] <;> omega

/-- Toward zero, too, only the least integer divided by minus one has no quotient of 64 bits. -/
theorem tdiv_outside (hb : b ≠ 0) (outside : ¬FitsWord (a.toInt.tdiv b.toInt)) :
    a.toInt = -2 ^ 63 ∧ b.toInt = -1 := by
  have sum := Int.tmod_add_mul_tdiv a.toInt b.toInt
  have small := natAbs_tmod_lt a.toInt (mt toInt_eq_zero_iff.1 hb)
  have le := Int.natAbs_tdiv_le_natAbs a.toInt b.toInt
  have lower := a.le_toInt
  have upper := a.toInt_lt
  have most : a.toInt.tdiv b.toInt = 2 ^ 63 := by omega
  rw [most] at sum
  omega

/-- A remainder is corrected within 64 bits, since it and the divisor differ in sign. -/
theorem toInt_mod_add (unlike : ¬(a % b < 0 ↔ b < 0)) :
    (a % b + b).toInt = (a % b).toInt + b.toInt := by
  rw [lt_zero_iff, lt_zero_iff] at unlike
  have lower := (a % b).le_toInt
  have upper := (a % b).toInt_lt
  have lower' := b.le_toInt
  have upper' := b.toInt_lt
  apply toInt_add_of_bounds <;> omega

/-- A quotient is corrected within 64 bits, since nothing remains where it is the least integer. -/
theorem toInt_sub_one {q : Int64} (hb : b ≠ 0) (found : narrow? (a.toInt.tdiv b.toInt) = some q)
    (remains : a % b ≠ 0) : (q - 1).toInt = q.toInt - 1 := by
  have value := narrow?_eq_some_iff.1 found
  have remains : a.toInt.tmod b.toInt ≠ 0 := by rwa [← Int64.toInt_mod, Ne, toInt_eq_zero_iff]
  have one : (1 : Int64).toInt = 1 := by decide
  have above : q.toInt ≠ -2 ^ 63 := by
    intro least
    have sum := Int.tmod_add_mul_tdiv a.toInt b.toInt
    have small := natAbs_tmod_lt a.toInt (mt toInt_eq_zero_iff.1 hb)
    have lower := a.le_toInt
    have upper := a.toInt_lt
    rw [← value, least] at sum
    omega
  have lower := q.le_toInt
  have upper := q.toInt_lt
  rw [toInt_sub_of_bounds] <;> omega

theorem toInt_integerRemainder (hb : b ≠ 0) :
    (integerRemainder a b).toInt = a.toInt.fmod b.toInt := by
  have hb' := mt toInt_eq_zero_iff.1 hb
  unfold integerRemainder
  dsimp only
  split
  · next h =>
    rw [toInt_mod_add h.2, Int64.toInt_mod]
    rw [Ne, ← toInt_eq_zero_iff, lt_zero_iff, lt_zero_iff, Int64.toInt_mod] at h
    exact (fdiv_fmod_of_unlike hb' h.1 h.2).2.symm
  · next h =>
    rw [Int64.toInt_mod]
    rw [Ne, ← toInt_eq_zero_iff, lt_zero_iff, lt_zero_iff, Int64.toInt_mod] at h
    exact (fdiv_fmod_of_like hb' (by tauto)).2.symm

theorem isExact_integerQuotient (hb : b ≠ 0) :
    IsExact (a.toInt.fdiv b.toInt) (integerQuotient a b) := by
  have hb' := mt toInt_eq_zero_iff.1 hb
  unfold integerQuotient
  split
  · next q found =>
    have value := narrow?_eq_some_iff.1 found
    split
    · next h =>
      refine .fits ?_
      rw [toInt_sub_one hb found h.1, value]
      rw [Ne, ← toInt_eq_zero_iff, lt_zero_iff, lt_zero_iff, Int64.toInt_mod] at h
      have unlike := h.2
      rw [← tmod_neg_iff h.1] at unlike
      exact (fdiv_fmod_of_unlike hb' h.1 unlike).1.symm
    · next h =>
      rw [Ne, ← toInt_eq_zero_iff, lt_zero_iff, lt_zero_iff, Int64.toInt_mod] at h
      refine .fits (value.trans (fdiv_fmod_of_like hb' ?_).1.symm)
      by_cases remains : a.toInt.tmod b.toInt = 0
      · exact .inl remains
      · rw [tmod_neg_iff remains]
        exact .inr (by tauto)
  · next none =>
    obtain ⟨least, minusOne⟩ := tdiv_outside hb (narrow?_eq_none_iff.1 none)
    rw [least, minusOne]
    exact .overflows (by decide) rfl

/-- The least integer divided by minus one is the only quotient without 64 bits. -/
theorem fdiv_outside_iff (hb : b ≠ 0) :
    ¬FitsWord (a.toInt.fdiv b.toInt) ↔ a.toInt = -2 ^ 63 ∧ b.toInt = -1 := by
  constructor
  · intro outside
    have exact := isExact_integerQuotient (a := a) hb
    unfold integerQuotient at exact
    split at exact
    · next q found =>
      cases exact with
      | fits same =>
        rw [← same] at outside
        exact absurd ⟨Int64.le_toInt _, Int64.toInt_lt _⟩ outside
    · next none => exact tdiv_outside hb (narrow?_eq_none_iff.1 none)
  · rintro ⟨least, minusOne⟩
    rw [least, minusOne]
    decide

end

/-! ### Operators -/

namespace Store

/-- An operator gives the integer if it has 64 bits, and else raises an overflow. -/
def Computes (s : Store) (op : BinaryOp) (v w : Value) (n : Int) : Prop :=
  ∃ r, s.binary op v w = r.map Edit.value ∧ IsExact n r

variable {s : Store} {v w : Value} {a b : Int64}

theorem binary_of_asInt? (op : BinaryOp) (hv : v.asInt? = some a) (hw : w.asInt? = some b) :
    s.binary op v w = (integerOp op a b).map Edit.value := by
  unfold binary
  rw [hv, hw]

theorem Computes.of_integerOp {op : BinaryOp} {n : Int} (hv : v.asInt? = some a)
    (hw : w.asInt? = some b) (exact : IsExact n (integerOp op a b)) : s.Computes op v w n :=
  ⟨_, binary_of_asInt? op hv hw, exact⟩

theorem unary_neg_of_asInt? (hv : v.asInt? = some a) : s.unary .neg v = narrow (-a.toInt) := by
  cases v with
  | int | bool =>
    cases hv
    rfl
  | _ => cases hv

theorem magnitude_of_asInt? (hv : v.asInt? = some a) : magnitude v = narrow |a.toInt| := by
  rw [Int.abs_eq_natAbs]
  cases v with
  | int | bool =>
    cases hv
    rfl
  | _ => cases hv

/-- Division by zero of whatever kind is refused. -/
theorem binary_zero {op : BinaryOp} (hop : op ∈ [BinaryOp.div, .floorDiv, .mod])
    (hv : v.asInt? = some a) (hw : w.asInt? = some 0) :
    ∃ f : Fault, s.binary op v w = .error f ∧ f.kind? = some "ZeroDivisionError" := by
  rw [binary_of_asInt? op hv hw]
  simp only [List.mem_cons, List.not_mem_nil, or_false] at hop
  rcases hop with rfl | rfl | rfl
  · exact ⟨.divisionByZero, rfl, rfl⟩
  · exact ⟨.integerFloorByZero, rfl, rfl⟩
  · exact ⟨.integerModuloByZero, rfl, rfl⟩

theorem binary_mod (hb : b ≠ 0) (hv : v.asInt? = some a) (hw : w.asInt? = some b) :
    s.binary .mod v w = .ok (Edit.value (.int (integerRemainder a b))) := by
  rw [binary_of_asInt? .mod hv hw, integerOp, if_neg hb]
  rfl

theorem integerRemainder_bounds (a : Int64) (hb : b ≠ 0) :
    (integerRemainder a b = 0 ∨ (integerRemainder a b < 0 ↔ b < 0)) ∧
      |(integerRemainder a b).toInt| < |b.toInt| ∧
      a.toInt = b.toInt * a.toInt.fdiv b.toInt + (integerRemainder a b).toInt := by
  obtain ⟨sign, small⟩ := fmod_bounds a.toInt (mt toInt_eq_zero_iff.1 hb)
  have sum := Int.fmod_add_mul_fdiv a.toInt b.toInt
  rw [← toInt_eq_zero_iff, lt_zero_iff, lt_zero_iff, toInt_integerRemainder hb]
  exact ⟨sign, small, by omega⟩

/-- Arithmetic on integers and booleans is that of the integers, up to overflow and division by
zero; no step on the way to a quotient or a remainder wraps. -/
theorem arithmetic_exact (s : Store) {v w : Value} {a b : Int64} (hv : v.asInt? = some a)
    (hw : w.asInt? = some b) :
    s.Computes .add v w (a.toInt + b.toInt) ∧
    s.Computes .sub v w (a.toInt - b.toInt) ∧
    s.Computes .mul v w (a.toInt * b.toInt) ∧
    IsExact (-a.toInt) (s.unary .neg v) ∧
    (IsExact |a.toInt| (magnitude v) ∧ ∀ {σ : Type} (env : Setting σ) (p : Position),
      env.callBuiltin .abs [v] p = Action.lift p (magnitude v)) ∧
    (b = 0 → ∀ op ∈ [BinaryOp.div, .floorDiv, .mod],
      ∃ f : Fault, s.binary op v w = .error f ∧ f.kind? = some "ZeroDivisionError") ∧
    (b ≠ 0 →
      s.Computes .floorDiv v w (a.toInt.fdiv b.toInt) ∧
      (¬FitsWord (a.toInt.fdiv b.toInt) ↔ a.toInt = -2 ^ 63 ∧ b.toInt = -1) ∧
      (∃ m : Int64, s.binary .mod v w = .ok (Edit.value (.int m)) ∧
        (m = 0 ∨ (m < 0 ↔ b < 0)) ∧ |m.toInt| < |b.toInt| ∧
        a.toInt = b.toInt * a.toInt.fdiv b.toInt + m.toInt) ∧
      (∀ q : Int64, narrow? (a.toInt.tdiv b.toInt) = some q →
        ¬(a.toInt = -2 ^ 63 ∧ b.toInt = -1) ∧ (a % b ≠ 0 → (q - 1).toInt = q.toInt - 1)) ∧
      (a % b).toInt = a.toInt.tmod b.toInt ∧
      (¬(a % b < 0 ↔ b < 0) → (a % b + b).toInt = (a % b).toInt + b.toInt)) := by
  refine ⟨.of_integerOp hv hw (isExact_narrow _), .of_integerOp hv hw (isExact_narrow _),
    .of_integerOp hv hw (isExact_narrow _), ?_, ⟨?_, fun _ _ => rfl⟩, ?_, fun hb => ?_⟩
  · rw [unary_neg_of_asInt? hv]
    exact isExact_narrow _
  · rw [magnitude_of_asInt? hv]
    exact isExact_narrow _
  · rintro rfl op hop
    exact binary_zero hop hv hw
  · refine ⟨.of_integerOp hv hw ?_, fdiv_outside_iff hb,
      ⟨_, binary_mod hb hv hw, integerRemainder_bounds a hb⟩, fun q found => ⟨?_, ?_⟩,
      Int64.toInt_mod a b, toInt_mod_add⟩
    · rw [integerOp, if_neg hb]
      exact isExact_integerQuotient hb
    · rintro ⟨least, minusOne⟩
      rw [least, minusOne] at found
      cases found
    · exact toInt_sub_one hb found

/-- The one quotient that overflows. -/
theorem arithmetic_exact_least :
    Value.asInt? (.int .minValue) = some .minValue ∧ Value.asInt? (.int (-1)) = some (-1) ∧
      (-1 : Int64) ≠ 0 ∧ Store.empty.Computes .floorDiv (.int .minValue) (.int (-1)) (2 ^ 63) := by
  have computes := arithmetic_exact .empty (v := .int .minValue) (w := .int (-1)) rfl rfl
  exact ⟨rfl, rfl, by decide, (computes.2.2.2.2.2.2 (by decide)).1⟩

end Store

end Footprint
