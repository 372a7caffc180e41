import Footprint.Machine.Builtin
import Footprint.Proofs.Progressions

set_option autoImplicit false

/-!
Lengths and indices. An index names the item that stands so far from the start, or from the end if
it is negative, and every other index is refused; with fewer than `2 ^ 63` items the arithmetic of
64 bits does not change this. A progression may have more integers than that. Its length is then
shown as a negative number, and no index names any of its integers.
-/

namespace Footprint

/-- The place that an integer names among `n` items. -/
def placeOf? (n : Nat) (i : Int) : Option Nat :=
  if -n ≤ i ∧ i < n then some (if i < 0 then n + i else i).toNat else none

section

variable {n k : Nat} {i : Int}

theorem placeOf?_lt (h : placeOf? n i = some k) : k < n := by
  unfold placeOf? at h
  split at h
  · next within =>
    cases h
    split <;> omega
  · cases h

theorem placeOf?_eq_emod (lower : -n ≤ i) (upper : i < n) :
    placeOf? n i = some (i % n).toNat := by
  rw [placeOf?, if_pos ⟨lower, upper⟩]
  split
  · next negative =>
    rw [← Int.add_emod_left, Int.emod_eq_of_lt (by omega) (by omega)]
  · next nonneg => rw [Int.emod_eq_of_lt (by omega) upper]

end

section

variable {index : Value} {i : Int64} {n : Nat}

/-- An index that counts from the end is normalised within 64 bits. -/
theorem toInt_add_ofNat (hn : n < 2 ^ 63) (negative : i < 0) :
    (i + .ofNat n).toInt = i.toInt + n := by
  have size := Int64.toInt_ofNat_of_lt hn
  rw [lt_zero_iff] at negative
  have lower := i.le_toInt
  rw [toInt_add_of_bounds, size] <;> omega

/-- What an index comes to, with the comparisons of 64 bits those of the integers. -/
theorem place_eq (on : Indexed) (hi : index.asInt? = some i) {position : Int64}
    (same : (if i < 0 then i + .ofNat n else i) = position) :
    place index n on =
      if 0 ≤ position.toInt ∧ position.toInt < (Int64.ofNat n).toInt then .ok position.toInt.toNat
      else .error (.indexRange on) := by
  simp only [place, hi, same]
  simp only [Int64.le_iff_toInt_le, Int64.lt_iff_toInt_lt, Int64.toInt_zero]

theorem place_of_lt (on : Indexed) (hi : index.asInt? = some i) (hn : n < 2 ^ 63) :
    place index n on =
      match placeOf? n i.toInt with
      | some k => .ok k
      | none => .error (.indexRange on) := by
  have position : (if i < 0 then i + .ofNat n else i).toInt =
      if i.toInt < 0 then n + i.toInt else i.toInt := by
    by_cases negative : i < 0
    · rw [if_pos negative, if_pos (lt_zero_iff.1 negative), toInt_add_ofNat hn negative, add_comm]
    · rw [if_neg negative, if_neg (mt lt_zero_iff.2 negative)]
  rw [place_eq on hi rfl, position, Int64.toInt_ofNat_of_lt hn, placeOf?]
  by_cases within : -n ≤ i.toInt ∧ i.toInt < n
  · rw [if_pos within, if_pos (by split <;> omega)]
  · rw [if_neg within, if_neg (by split <;> omega)]

/-- A number of items that has 64 bits only without a sign is taken for a negative one. -/
theorem toInt_ofNat_of_le (lower : 2 ^ 63 ≤ n) (upper : n < 2 ^ 64) :
    (Int64.ofNat n).toInt = n - 2 ^ 64 := by
  have size : Int64.size = 2 ^ 64 := rfl
  rw [← Int64.ofInt_eq_ofNat, Int64.toInt_ofInt, size, Int.bmod_def]
  omega

theorem place_of_le (on : Indexed) (hi : index.asInt? = some i) (lower : 2 ^ 63 ≤ n)
    (upper : n < 2 ^ 64) : place index n on = .error (.indexRange on) := by
  rw [place_eq on hi rfl, toInt_ofNat_of_le lower upper]
  exact if_neg (by omega)

end

namespace Range

variable {r : Range} {index : Value} {i : Int64}

/-- The item at a position is right also where the steps to it come to more than 64 bits. -/
theorem item_eq_getElem {k : Nat} (hk : k < r.toList.length) : r.item k = r.toList[k] := by
  simp only [toList, List.getElem_map, List.getElem_range, Int64.ofInt_add, Int64.ofInt_mul,
    Int64.ofInt_toInt, Int64.ofInt_eq_ofNat]
  rw [Int64.mul_comm]
  rfl

theorem subscript_of_placeOf? (s : Store) (hi : index.asInt? = some i) (hr : r.length < 2 ^ 63) :
    s.subscript (.range r) index =
      match placeOf? r.length i.toInt with
      | some k => .ok (.int (r.item k))
      | none => .error (.indexRange .range) := by
  change (place index r.length .range >>= fun k => Except.ok (Value.int (r.item k))) = _
  rw [place_of_lt .range hi hr]
  cases placeOf? r.length i.toInt <;> rfl

theorem subscript_of_le (s : Store) (nonzero : r.step ≠ 0) (hi : index.asInt? = some i)
    (hr : 2 ^ 63 ≤ r.length) : s.subscript (.range r) index = .error (.indexRange .range) := by
  change (place index r.length .range >>= fun k => Except.ok (Value.int (r.item k))) = _
  rw [place_of_le .range hi hr (length_lt nonzero)]
  rfl

/-- With `n` values to go through, fewer than `2 ^ 63`, the length of a progression is `n`, and an
index from `-n` to `n - 1` gives the value at its place while every other one is refused. With more
values the length comes out less by `2 ^ 64`, and every index is refused. -/
theorem indexed {σ : Type} (env : Setting σ) (p : Position) (m : Machine σ) (r : Range)
    (nonzero : r.step ≠ 0) :
    ∃ (vs : List Value) (n : Int64), (Items.progression r).Yields vs ∧
      env.callBuiltin .len [.range r] p m = .done (.int n) m ∧
      (vs.length < 2 ^ 63 →
        n.toInt = vs.length ∧
        ∀ (index : Value) (i : Int64), index.asInt? = some i →
          (-vs.length ≤ i.toInt ∧ i.toInt < vs.length →
            ∃ v, vs[(i.toInt % vs.length).toNat]? = some v ∧
              m.store.subscript (.range r) index = .ok v) ∧
          (¬(-vs.length ≤ i.toInt ∧ i.toInt < vs.length) →
            m.store.subscript (.range r) index = .error (.indexRange .range)) ∧
          (i < 0 → (i + n).toInt = i.toInt + n.toInt)) ∧
      (2 ^ 63 ≤ vs.length →
        n.toInt = vs.length - 2 ^ 64 ∧ n < 0 ∧
        ∀ (index : Value) (i : Int64), index.asInt? = some i →
          m.store.subscript (.range r) index = .error (.indexRange .range)) := by
  have size : (r.toList.map Value.int).length = r.length := by
    rw [List.length_map, length_toList]
  refine ⟨r.toList.map .int, .ofNat r.length, yields_toList nonzero, rfl, ?_, ?_⟩
  · rw [size]
    intro small
    refine ⟨Int64.toInt_ofNat_of_lt small, fun index i hi => ⟨?_, ?_, ?_⟩⟩
    · rintro ⟨lower, upper⟩
      have found := placeOf?_eq_emod lower upper
      have within : (i.toInt % r.length).toNat < r.toList.length := by
        rw [length_toList]
        exact placeOf?_lt found
      refine ⟨.int r.toList[(i.toInt % r.length).toNat], ?_, ?_⟩
      · rw [List.getElem?_map, List.getElem?_eq_getElem within]
        rfl
      · rw [subscript_of_placeOf? m.store hi small, found, ← item_eq_getElem within]
    · intro outside
      rw [subscript_of_placeOf? m.store hi small, placeOf?, if_neg outside]
    · intro negative
      rw [toInt_add_ofNat small negative, Int64.toInt_ofNat_of_lt small]
  · rw [size]
    intro large
    have value := toInt_ofNat_of_le large (length_lt nonzero)
    refine ⟨value, ?_, fun index i hi => subscript_of_le m.store nonzero hi large⟩
    have upper := length_lt nonzero
    rw [lt_zero_iff, value]
    omega

/-- The last but one of four integers, which stands two steps of `2 ^ 62` after the first. -/
theorem indexed_longSteps :
    let r : Range := ⟨.minValue, .maxValue, 4611686018427387904⟩
    r.step ≠ 0 ∧ ∃ vs v, (Items.progression r).Yields vs ∧ vs[2]? = some v ∧
      Store.initial.subscript (.range r) (.int (-2)) = .ok v := by
  dsimp only
  have nonzero : (4611686018427387904 : Int64) ≠ 0 := by decide
  obtain ⟨vs, n, yields, length, small, large⟩ :=
    indexed (σ := Unit) ⟨.default, .steady, none⟩ .start (.initial ())
      ⟨.minValue, .maxValue, 4611686018427387904⟩ nonzero
  obtain rfl : n = 4 := by
    cases length
    rfl
  have few : vs.length < 2 ^ 63 := by
    by_contra many
    exact absurd (large (by omega)).2.1 (by decide)
  obtain ⟨four, items⟩ := small few
  have four : vs.length = 4 := by
    have value : (4 : Int64).toInt = 4 := by decide
    omega
  rw [four] at items
  obtain ⟨v, found, same⟩ := (items (.int (-2)) (-2) rfl).1 (by decide)
  exact ⟨nonzero, vs, v, yields, found, same⟩

/-- The length of a progression of `2 ^ 64 - 2` integers is said to be `-2`, and there is no first
one of them. And of four integers the last stands three steps after the first, a product that
wraps. -/
theorem length_wraps :
    let r : Range := ⟨-9223372036854775807, 9223372036854775807, 1⟩
    let q : Range := ⟨.minValue, .maxValue, 4611686018427387904⟩
    (∃ vs, (Items.progression r).Yields vs ∧ vs.length = 2 ^ 64 - 2) ∧
    (⟨.default, .steady, none⟩ : Setting Unit).callBuiltin .len [.range r] .start (.initial ()) =
      .done (.int (-2)) (.initial ()) ∧
    Store.initial.subscript (.range r) (.int 0) = .error (.indexRange .range) ∧
    q.length = 4 ∧ (q.step * .ofNat 3).toInt ≠ q.step.toInt * 3 := by
  dsimp only
  refine ⟨⟨_, yields_toList (by decide), ?_⟩, rfl, rfl, rfl, by decide⟩
  rw [List.length_map, length_toList]
  rfl

end Range

end Footprint
