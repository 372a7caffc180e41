import Footprint.Store.Order
import Mathlib.Data.Fintype.Card
import Mathlib.Logic.Relation

set_option autoImplicit false

/-!
Values and the values in them. A comparison opens lists and tuples, and lists only so deep; what is
proved of all comparisons goes by induction on that depth and on the nesting of tuples. A value in
which so many lists at most are nested fits in a depth, and one that fits in some depth fits in one
more than there are lists.
-/

namespace Footprint

/-- Where below each rank there is the one before, and nothing has two of them, there are fewer
ranks than there is to bear them. -/
theorem lt_card_of_ranked {κ : Type} [Fintype κ] (ranked : Nat → κ → Prop)
    (unique : ∀ {n m : Nat} {k : κ}, ranked n k → ranked m k → n = m)
    (below : ∀ {n : Nat} {k : κ}, ranked (n + 1) k → ∃ j, ranked n j) {n : Nat} {k : κ}
    (h : ranked n k) : n < Fintype.card κ := by
  have reached (m : Nat) (le : m ≤ n) : ∃ j, ranked m j := by
    induction n generalizing k with
    | zero => exact ⟨k, Nat.le_zero.1 le ▸ h⟩
    | succ n ih =>
      rcases Nat.le_succ_iff.1 le with le | rfl
      · obtain ⟨j, hj⟩ := below h
        exact ih hj le
      · exact ⟨k, h⟩
  choose bearer bears using fun m : Fin (n + 1) => reached m (Nat.le_of_lt_succ m.isLt)
  have different : Function.Injective bearer :=
    fun m l same => Fin.ext (unique (same ▸ bears m) (bears l))
  have bound := Fintype.card_le_of_injective bearer different
  rwa [Fintype.card_fin] at bound

namespace Store

variable {s : Store} {d e n : Nat} {v w : Value} {vs ws : List Value}

def itemsOf (s : Store) : Value → List Value
  | .list r => (s.items r).toList
  | .tuple _ items => items
  | _ => []

theorem toList_items_of_le {r : ListRef} (outside : s.lists.size ≤ r.index) :
    (s.items r).toList = [] := by
  simp [items, Array.getElem?_eq_none outside]

/-- However often one goes from a value to its items, no float is met. -/
def FloatFree (s : Store) (v : Value) : Prop :=
  ∀ x : Float, ¬Relation.ReflTransGen (fun a b => b ∈ s.itemsOf a) v (.float x)

theorem FloatFree.ne_float (h : s.FloatFree v) (x : Float) : v ≠ .float x :=
  fun same => h x (same ▸ .refl)

theorem FloatFree.item (h : s.FloatFree v) (hw : w ∈ s.itemsOf v) : s.FloatFree w :=
  fun x path => h x (.head hw path)

/-! ### Opening values -/

/-- At a depth a value can be opened, with its items to be looked at in a depth: that of a list is
one less. -/
inductive Opens (s : Store) : Nat → Value → Nat → List Value → Prop
  | list (d : Nat) (r : ListRef) : Opens s (d + 1) (.list r) d (s.items r).toList
  | tuple (d id : Nat) (vs : List Value) : Opens s d (.tuple id vs) d vs

theorem Opens.itemsOf_eq (h : s.Opens d v e vs) : s.itemsOf v = vs := by
  cases h <;> rfl

theorem Opens.depth_eq {f : Nat} (h : s.Opens d v e vs) (h' : s.Opens d v f ws) : f = e := by
  cases h <;> cases h' <;> rfl

theorem Opens.items_eq {f : Nat} (h : s.Opens d v e vs) (h' : s.Opens n v f ws) : vs = ws :=
  h.itemsOf_eq.symm.trans h'.itemsOf_eq

theorem Opens.le (h : s.Opens d v e vs) : e ≤ d := by
  cases h with
  | list => exact Nat.le_succ _
  | tuple => exact Nat.le_refl _

/-- Values that are opened alike at one depth are so at every other. -/
theorem Opens.like {f : Nat} {us : List Value} (h : s.Opens d v e vs) (hv : s.Opens n v f us)
    (hw : s.Opens n w f ws) : s.Opens d w e ws := by
  cases h with
  | list =>
    cases hv
    cases hw with
    | list _ q => exact .list _ q
  | tuple =>
    cases hv
    cases hw with
    | tuple _ id => exact .tuple _ id ws

theorem Opens.succ (h : s.Opens d v e vs) : s.Opens (d + 1) v (e + 1) vs := by
  cases h with
  | list => exact .list _ _
  | tuple => exact .tuple _ _ _

theorem Opens.inPairDepth (hv : s.Opens d v e vs) (hw : s.Opens d w e ws) :
    ∃ f, f ≤ s.pairDepth ∧ s.Opens s.pairDepth v f vs ∧ s.Opens s.pairDepth w f ws := by
  cases hv with
  | list =>
    cases hw
    exact ⟨_, Nat.le_succ _, .list _ _, .list _ _⟩
  | tuple =>
    cases hw
    exact ⟨_, Nat.le_refl _, .tuple _ _ _, .tuple _ _ _⟩

theorem FloatFree.opened (h : s.FloatFree v) (opens : s.Opens d v e vs) (hw : w ∈ vs) :
    s.FloatFree w :=
  h.item (by rwa [opens.itemsOf_eq])

/-- What holds of a value if it holds of its items holds of every value at every depth. -/
@[elab_as_elim]
theorem Opens.induct (s : Store) {P : Nat → Value → Prop} (d : Nat) (v : Value)
    (step : ∀ d v, (∀ e vs, s.Opens d v e vs → ∀ w ∈ vs, P e w) → P d v) : P d v :=
  step d v fun e _ _ w _ => Opens.induct s e w step
termination_by (d, sizeOf v)
decreasing_by
  rename_i opens hw
  cases opens with
  | list => exact .left _ _ (Nat.lt_succ_self _)
  | tuple =>
    refine .right _ ?_
    have smaller := List.sizeOf_lt_of_mem hw
    simp only [Value.tuple.sizeOf_spec]
    omega

/-! ### Depths in which values fit -/

/-- At most so many lists are nested in the value. -/
inductive Fits (s : Store) : Nat → Value → Prop
  | items {d e : Nat} {v : Value} {vs : List Value} (opens : s.Opens d v e vs)
      (items : ∀ w ∈ vs, Fits s e w) : Fits s d v
  | leaf {d : Nat} {v : Value} (noList : ∀ r, v ≠ .list r) (noTuple : ∀ id vs, v ≠ .tuple id vs) :
      Fits s d v

theorem Fits.succ (h : s.Fits d v) : s.Fits (d + 1) v := by
  induction h with
  | items opens _ ih => exact .items opens.succ ih
  | leaf noList noTuple => exact .leaf noList noTuple

theorem Fits.mono (h : s.Fits d v) (le : d ≤ e) : s.Fits e v := by
  induction le with
  | refl => exact h
  | step _ ih => exact ih.succ

theorem Fits.opened (h : s.Fits d v) (opens : s.Opens d v e vs) (hw : w ∈ vs) : s.Fits e w := by
  cases h with
  | items opens' items =>
    rw [← opens.itemsOf_eq, opens'.itemsOf_eq] at hw
    rw [← opens'.depth_eq opens] at items
    exact items w hw
  | leaf noList noTuple =>
    cases opens with
    | list d r => exact absurd rfl (noList r)
    | tuple d id => exact absurd rfl (noTuple id vs)

theorem Opens.fits_iff (h : s.Opens d v e vs) : s.Fits d v ↔ ∀ w ∈ vs, s.Fits e w :=
  ⟨fun fits _ hw => fits.opened h hw, .items h⟩

theorem not_fits_zero (r : ListRef) : ¬s.Fits 0 (.list r) := by
  rintro (⟨opens, -⟩ | ⟨noList, -⟩)
  · cases opens
  · exact noList r rfl

/-- Values that each fit in some depth fit in a common one. -/
theorem exists_fits_all (h : ∀ w ∈ ws, ∃ d, s.Fits d w) : ∃ d, ∀ w ∈ ws, s.Fits d w := by
  induction ws with
  | nil => exact ⟨0, fun w hw => absurd hw List.not_mem_nil⟩
  | cons w ws ih =>
    obtain ⟨d, hd⟩ := ih fun v hv => h v (.tail _ hv)
    obtain ⟨e, he⟩ := h w (.head _)
    refine ⟨max d e, fun v hv => ?_⟩
    cases hv with
    | head => exact he.mono (Nat.le_max_right d e)
    | tail _ hv => exact (hd v hv).mono (Nat.le_max_left d e)

/-- A list that fits in a depth and in none below it. -/
def IsRanked (s : Store) (n : Nat) (r : ListRef) : Prop :=
  s.Fits (n + 1) (.list r) ∧ ¬s.Fits n (.list r)

theorem IsRanked.unique {m : Nat} {r : ListRef} (h : s.IsRanked n r) (h' : s.IsRanked m r) :
    n = m := by
  rcases Nat.lt_trichotomy n m with lt | same | gt
  · exact absurd (h.1.mono lt) h'.2
  · exact same
  · exact absurd (h'.1.mono gt) h.2

/-- In a value that fits in a depth and not in the one below there is a list of just that depth. -/
theorem exists_isRanked (h : s.Fits (n + 1) v) (deep : ¬s.Fits n v) : ∃ r, s.IsRanked n r := by
  generalize same : n + 1 = d at h
  induction h with
  | @items d e v vs opens items ih =>
    subst same
    cases opens with
    | list d r => exact ⟨r, .items (.list _ r) items, deep⟩
    | tuple d id vs =>
      obtain ⟨w, hw, deep⟩ := not_forall₂.1 fun shallow => deep (.items (.tuple _ id vs) shallow)
      exact ih w hw deep rfl
  | leaf noList noTuple => exact absurd (.leaf noList noTuple) deep

/-- Below a list of some depth there is one of the depth before. -/
theorem IsRanked.below {r : ListRef} (h : s.IsRanked (n + 1) r) : ∃ q, s.IsRanked n q := by
  obtain ⟨w, hw, deep⟩ := not_forall₂.1 fun shallow => h.2 (.items (.list n r) shallow)
  exact exists_isRanked (h.1.opened (.list _ r) hw) deep

/-- A list in which there are lists is one of those in the store. -/
theorem IsRanked.index_lt {r : ListRef} (h : s.IsRanked (n + 1) r) : r.index < s.lists.size := by
  by_contra outside
  refine h.2 (.items (.list n r) ?_)
  simp [toList_items_of_le (Nat.le_of_not_lt outside)]

/-- No list is deeper than there are lists in the store: those of smaller depths are others. -/
theorem IsRanked.le_size {r : ListRef} (h : s.IsRanked n r) : n ≤ s.lists.size := by
  cases n with
  | zero => exact Nat.zero_le _
  | succ n =>
    let ranked (m : Nat) (k : Fin s.lists.size) : Prop := s.IsRanked (m + 1) ⟨k⟩
    have bound : n < Fintype.card (Fin s.lists.size) := by
      refine lt_card_of_ranked ranked (fun h h' => ?_) (fun h => ?_)
        (k := ⟨r.index, h.index_lt⟩) h
      · exact Nat.succ.inj (IsRanked.unique h h')
      · obtain ⟨q, hq⟩ := IsRanked.below h
        exact ⟨⟨q.index, hq.index_lt⟩, hq⟩
    rwa [Fintype.card_fin] at bound

/-- A value that fits in some depth fits in one more than there are lists. -/
theorem Fits.size_succ (h : s.Fits d v) : s.Fits (s.lists.size + 1) v := by
  induction d with
  | zero => exact h.mono (Nat.zero_le _)
  | succ d ih =>
    by_cases shallow : s.Fits d v
    · exact ih shallow
    · obtain ⟨r, ranked⟩ := exists_isRanked h shallow
      exact h.mono (Nat.succ_le_succ ranked.le_size)

theorem Fits.pairDepth (h : s.Fits d v) : s.Fits s.pairDepth v :=
  h.size_succ.mono (Nat.succ_le_succ (Nat.le_mul_self _))

end Store

end Footprint
