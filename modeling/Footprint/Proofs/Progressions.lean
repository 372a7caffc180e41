import Footprint.Store.Access
import Footprint.Store.Order
import Footprint.Proofs.IntegerArithmetic

set_option autoImplicit false

/-!
Progressions of integers. Going through one, its length, its truth value and membership in it all
agree with the list of its integers, also where the next integer would have more than 64 bits.
-/

namespace Footprint

open Decimal

namespace Items

/-- An iteration gives these values, one by one, and ends. -/
inductive Yields : Items → List Value → Prop
  | done {i : Items} (h : i.next? = none) : Yields i []
  | more {i rest : Items} {v : Value} {vs : List Value} (h : i.next? = some (v, rest))
      (others : Yields rest vs) : Yields i (v :: vs)

/-- A loop that is bounded by no fewer steps goes through all values. -/
theorem Yields.foldUpTo_eq {m : Type → Type} [Monad m] {α : Type} (step : α → Value → m α)
    {i : Items} {vs : List Value} (h : i.Yields vs) {n : Nat} (hn : vs.length ≤ n) (a : α) :
    foldUpTo step n a i = vs.foldlM step a := by
  induction h generalizing n a with
  | done none =>
    cases n with
    | zero => rfl
    | succ n => simp only [foldUpTo, none, List.foldlM_nil]
  | more next others ih =>
    cases n with
    | zero => cases hn
    | succ n =>
      simp only [foldUpTo, next, List.foldlM_cons]
      exact congrArg _ (funext fun b => ih (Nat.le_of_succ_le_succ hn) b)

end Items

namespace Range

/-- An integer comes before the end of a progression, in the direction of its step. -/
def IsBefore (r : Range) (n : Int) : Prop :=
  if 0 < r.step.toInt then n < r.stop.toInt else r.stop.toInt < n

/-- The integers of a progression. -/
def toList (r : Range) : List Int64 :=
  (List.range r.length).map fun k : Nat => .ofInt (r.start.toInt + k * r.step.toInt)

variable {r : Range} {k : Nat}

theorem length_toList (r : Range) : r.toList.length = r.length := by
  rw [toList, List.length_map, List.length_range]

/-- A position is in a progression if what stands there comes before the end. -/
theorem lt_length_iff (nonzero : r.step ≠ 0) :
    k < r.length ↔ r.IsBefore (r.start.toInt + k * r.step.toInt) := by
  have nonzero := mt toInt_eq_zero_iff.1 nonzero
  unfold length IsBefore
  dsimp only
  by_cases up : 0 < r.step.toInt
  · rw [if_pos up, if_pos up, Int.lt_toNat, ← Int.add_one_le_iff, Int.le_ediv_iff_mul_le up,
      Int.add_mul]
    omega
  · have down : 0 < -r.step.toInt := by omega
    rw [if_neg up, if_neg up, if_pos (by omega), Int.lt_toNat, ← Int.add_one_le_iff,
      Int.le_ediv_iff_mul_le down, Int.add_mul, Int.mul_neg]
    omega

theorem eq_length {n : Nat} (nonzero : r.step ≠ 0)
    (same : ∀ k : Nat, r.IsBefore (r.start.toInt + k * r.step.toInt) ↔ k < n) : r.length = n := by
  apply Nat.le_antisymm
  · exact Nat.le_of_not_lt fun lt => absurd ((same n).1 ((lt_length_iff nonzero).1 lt)) (by omega)
  · refine Nat.le_of_not_lt fun lt => ?_
    exact absurd ((lt_length_iff nonzero).2 ((same _).2 lt)) (Nat.lt_irrefl _)

/-- What comes before the end and not before the start has 64 bits. -/
theorem fits_of_lt_length (nonzero : r.step ≠ 0) (hk : k < r.length) :
    FitsWord (r.start.toInt + k * r.step.toInt) := by
  have nonzero' := mt toInt_eq_zero_iff.1 nonzero
  have before := (lt_length_iff nonzero).1 hk
  have lower := r.start.le_toInt
  have upper := r.start.toInt_lt
  have lower' := r.stop.le_toInt
  have upper' := r.stop.toInt_lt
  unfold IsBefore at before
  split at before
  · next up =>
    have forth : 0 ≤ k * r.step.toInt := by positivity
    omega
  · next down =>
    have back : k * r.step.toInt ≤ 0 := Int.mul_nonpos_of_nonneg_of_nonpos (by omega) (by omega)
    omega

theorem toInt_getElem_toList (nonzero : r.step ≠ 0) (hk : k < r.toList.length) :
    r.toList[k].toInt = r.start.toInt + k * r.step.toInt := by
  have within := fits_of_lt_length nonzero (length_toList r ▸ hk)
  simp only [toList, List.getElem_map, List.getElem_range]
  exact Int64.toInt_ofInt_of_le within.1 within.2

theorem length_lt (nonzero : r.step ≠ 0) : r.length < 2 ^ 64 := by
  refine Nat.lt_of_not_le fun le => ?_
  have before := (lt_length_iff nonzero).1 (show 2 ^ 64 - 1 < r.length by omega)
  have lower := r.start.le_toInt
  have upper := r.start.toInt_lt
  have lower' := r.stop.le_toInt
  have upper' := r.stop.toInt_lt
  have nonzero := mt toInt_eq_zero_iff.1 nonzero
  unfold IsBefore at before
  split at before <;> omega

/-! ### Going through a progression -/

theorem isBefore_start_iff :
    (if 0 < r.step then r.start < r.stop else r.stop < r.start) ↔ r.IsBefore r.start.toInt := by
  have up : 0 < r.step ↔ 0 < r.step.toInt := Int64.lt_iff_toInt_lt
  unfold IsBefore
  rw [← Int64.lt_iff_toInt_lt, ← Int64.lt_iff_toInt_lt]
  by_cases h : 0 < r.step
  · rw [if_pos h, if_pos (up.1 h)]
  · rw [if_neg h, if_neg (mt up.2 h)]

theorem next?_of_not_before (h : ¬r.IsBefore r.start.toInt) : r.next? = none :=
  if_neg (mt isBefore_start_iff.1 h)

/-- The progression after the first integer, whether or not the next one has 64 bits. -/
theorem next?_of_before (h : r.IsBefore r.start.toInt) :
    ∃ rest : Range, r.next? = some (r.start, rest) ∧ rest.step = r.step ∧ rest.stop = r.stop ∧
      (rest.start.toInt = r.start.toInt + r.step.toInt ∨
        ¬FitsWord (r.start.toInt + r.step.toInt) ∧ rest.start = r.stop) := by
  refine ⟨_, if_pos (isBefore_start_iff.2 h), rfl, rfl, ?_⟩
  cases found : narrow? (r.start.toInt + r.step.toInt) with
  | some n => exact .inl (narrow?_eq_some_iff.1 found)
  | none => exact .inr ⟨narrow?_eq_none_iff.1 found, rfl⟩

theorem isBefore_congr {rest : Range} (step : rest.step = r.step) (stop : rest.stop = r.stop)
    (n : Int) : rest.IsBefore n ↔ r.IsBefore n := by
  unfold IsBefore
  rw [step, stop]

theorem not_isBefore_stop (k : Nat) : ¬r.IsBefore (r.stop.toInt + k * r.step.toInt) := by
  unfold IsBefore
  split
  · next up =>
    have forth : 0 ≤ k * r.step.toInt := by positivity
    omega
  · next down =>
    have back : k * r.step.toInt ≤ 0 := Int.mul_nonpos_of_nonneg_of_nonpos (by omega) (by omega)
    omega

/-- After the first integer a progression is shorter by one and goes on a step further. -/
theorem tail_of_next? (nonzero : r.step ≠ 0) {n : Nat} (length : r.length = n + 1) :
    ∃ rest : Range, r.next? = some (r.start, rest) ∧ rest.step ≠ 0 ∧ rest.length = n ∧
      ∀ k < n, rest.start.toInt + k * rest.step.toInt =
        r.start.toInt + (k + 1 : Nat) * r.step.toInt := by
  have inside (k : Nat) : k < n + 1 ↔ r.IsBefore (r.start.toInt + k * r.step.toInt) := by
    rw [← length]
    exact lt_length_iff nonzero
  have first : r.IsBefore r.start.toInt := by simpa using (inside 0).1 (by omega)
  obtain ⟨rest, next, step, stop, start⟩ := next?_of_before first
  have nonzero' : rest.step ≠ 0 := step ▸ nonzero
  refine ⟨rest, next, nonzero', ?_⟩
  rcases start with start | ⟨outside, start⟩
  · have same (k : Nat) : rest.start.toInt + k * rest.step.toInt =
        r.start.toInt + (k + 1 : Nat) * r.step.toInt := by
      rw [start, step, Nat.cast_add_one, Int.add_mul, Int.one_mul]
      omega
    refine ⟨eq_length nonzero' fun k => ?_, fun k _ => same k⟩
    rw [isBefore_congr step stop, same, ← inside]
    omega
  · -- the second integer would have no 64 bits, so there is none
    have single : n = 0 := by
      by_contra several
      have second := fits_of_lt_length nonzero (k := 1) (by omega)
      rw [Nat.cast_one, Int.one_mul] at second
      exact outside second
    subst single
    refine ⟨eq_length nonzero' fun k => iff_of_false ?_ (Nat.not_lt_zero k), ?_⟩
    · rw [isBefore_congr step stop, start, step]
      exact not_isBefore_stop k
    · exact fun k hk => absurd hk (Nat.not_lt_zero k)

/-- Going through a progression gives its integers and ends. -/
theorem yields_toList (nonzero : r.step ≠ 0) :
    (Items.progression r).Yields (r.toList.map .int) := by
  induction length : r.length generalizing r with
  | zero =>
    have outside := mt (lt_length_iff nonzero (k := 0)).2 (by omega)
    rw [Nat.cast_zero, Int.zero_mul, Int.add_zero] at outside
    rw [toList, length]
    exact .done (congrArg (Option.map _) (next?_of_not_before outside))
  | succ n ih =>
    obtain ⟨rest, next, nonzero', length', same⟩ := tail_of_next? nonzero length
    have split : r.toList = r.start :: rest.toList := by
      rw [toList, toList, length, length', List.range_succ_eq_map, List.map_cons, List.map_map,
        Nat.cast_zero, Int.zero_mul, Int.add_zero, Int64.ofInt_toInt]
      refine congrArg _ (List.map_congr_left fun k hk => ?_)
      rw [Function.comp_apply, same k (List.mem_range.1 hk)]
    rw [split, List.map_cons]
    exact .more (congrArg (Option.map _) next) (ih nonzero' length')

/-! ### Membership -/

theorem contains_iff_mem (nonzero : r.step ≠ 0) (n : Int64) :
    r.contains n = true ↔ n ∈ r.toList := by
  have nonzero' := mt toInt_eq_zero_iff.1 nonzero
  unfold contains
  simp only [Bool.and_eq_true, beq_iff_eq, decide_eq_true_iff]
  constructor
  · rintro ⟨⟨divides, nonneg⟩, lt⟩
    obtain ⟨k, position⟩ := Int.eq_ofNat_of_zero_le nonneg
    have hk : k < r.toList.length := by
      rw [length_toList]
      omega
    have value : r.toList[k].toInt = n.toInt := by
      rw [toInt_getElem_toList nonzero hk, ← position, Int.ediv_mul_cancel_of_emod_eq_zero divides]
      omega
    rw [← Int64.toInt_inj.1 value]
    exact List.getElem_mem hk
  · intro mem
    obtain ⟨k, hk, rfl⟩ := List.getElem_of_mem mem
    have offset : r.toList[k].toInt - r.start.toInt = k * r.step.toInt := by
      rw [toInt_getElem_toList nonzero hk]
      omega
    rw [offset, Int.mul_emod_left, Int.mul_ediv_cancel _ nonzero', ← length_toList]
    exact ⟨⟨rfl, Int.natCast_nonneg k⟩, Int.ofNat_lt.2 hk⟩

end Range

/-- Going through a progression, one by one or in a loop, gives the integers from its start on that
come before its end. Its length is their number and has 64 bits, it is true if there are any, and
they are the integers that are in it. -/
theorem Range.agrees (s : Store) (r : Range) (nonzero : r.step ≠ 0) :
    s.iterate (.range r) = .ok (.progression r) ∧
    (Items.progression r).Yields (r.toList.map .int) ∧
    (∀ {m : Type → Type} [Monad m] {α : Type} (step : α → Value → m α) (a : α),
      (Items.progression r).fold step a = (r.toList.map .int).foldlM step a) ∧
    r.toList.length = r.length ∧ r.length < 2 ^ 64 ∧
    (∀ (k : Nat) (hk : k < r.toList.length),
      r.toList[k].toInt = r.start.toInt + k * r.step.toInt ∧ r.IsBefore r.toList[k].toInt) ∧
    ¬r.IsBefore (r.start.toInt + r.length * r.step.toInt) ∧
    (s.isTruthy (.range r) = true ↔ r.toList ≠ []) ∧
    ∀ (v : Value) (n : Int64), v.asInt? = some n →
      s.compare .isIn v (.range r) = pure (decide (n ∈ r.toList)) := by
  have yields := yields_toList nonzero
  have length := length_toList r
  refine ⟨rfl, yields, fun step a => ?_, length, length_lt nonzero, fun k hk => ?_, ?_, ?_, ?_⟩
  · exact yields.foldUpTo_eq step (by rw [List.length_map, length]; exact Nat.le_refl _) a
  · have value := toInt_getElem_toList nonzero hk
    refine ⟨value, ?_⟩
    rw [value, ← lt_length_iff nonzero]
    exact length ▸ hk
  · rw [← lt_length_iff nonzero]
    exact Nat.lt_irrefl _
  · rw [← List.length_pos_iff, length]
    exact decide_eq_true_iff
  · intro v n hv
    have same : r.contains n = decide (n ∈ r.toList) := by
      rw [Bool.eq_iff_iff, contains_iff_mem nonzero, decide_eq_true_iff]
    change pure (v.asInt?.any r.contains) = _
    rw [hv, ← same]
    rfl

/-- A progression of the longest steps, of which the second leads out of 64 bits. -/
theorem Range.agrees_longest :
    (⟨.maxValue, .minValue, .minValue⟩ : Range).step ≠ 0 ∧
      (Items.progression ⟨.maxValue, .minValue, .minValue⟩).Yields [.int .maxValue, .int (-1)] := by
  have yields := (agrees .empty ⟨.maxValue, .minValue, .minValue⟩ (by decide)).2.1
  exact ⟨by decide, yields⟩

end Footprint
