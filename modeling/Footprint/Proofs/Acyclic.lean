import Footprint.Proofs.ValueDepth
import Footprint.Store.Show
import Mathlib.Data.Fintype.EquivFin
import Mathlib.Order.RelClasses

set_option autoImplicit false

/-!
Values in which no list holds itself. Just these fit in a depth, and just these have a text: to
write a value all lists in it are opened.
-/

namespace Footprint

open Relation

namespace Store

variable {s : Store} {d e : Nat} {v w : Value} {vs : List Value}

def HasItem (s : Store) (v w : Value) : Prop := w ∈ s.itemsOf v

/-- However often one goes from a value to its items, no list is met that holds itself. -/
def Acyclic (s : Store) (v : Value) : Prop :=
  ∀ r : ListRef, ReflTransGen s.HasItem v (.list r) → ¬TransGen s.HasItem (.list r) (.list r)

theorem itemsOf_leaf (noList : ∀ r, v ≠ .list r) (noTuple : ∀ id vs, v ≠ .tuple id vs) :
    s.itemsOf v = [] := by
  cases v with
  | list r => exact absurd rfl (noList r)
  | tuple id vs => exact absurd rfl (noTuple id vs)
  | _ => rfl

theorem Fits.acyclic (h : s.Fits d v) : s.Acyclic v := by
  induction h with
  | items opens _ ih =>
    have items := opens.itemsOf_eq
    intro r path cycle
    rcases ReflTransGen.cases_head path with rfl | ⟨w, hw, path⟩
    · -- the list is the value itself, and going round once leads through one of its items
      obtain ⟨w, hw, back⟩ := TransGen.head'_iff.1 cycle
      exact ih w (items ▸ hw) r back cycle
    · exact ih w (items ▸ hw) r path cycle
  | leaf noList noTuple =>
    intro r path cycle
    rcases ReflTransGen.cases_head path with same | ⟨w, hw, -⟩
    · exact noList r same
    · rw [HasItem, itemsOf_leaf noList noTuple] at hw
      exact List.not_mem_nil hw

/-- A value fits in some depth if all lists that it leads to do. -/
theorem exists_fits_of_lists (d : Nat)
    (h : ∀ r : ListRef, ReflTransGen s.HasItem v (.list r) → ∃ e, s.Fits e (.list r)) :
    ∃ e, s.Fits e v := by
  induction d, v using Opens.induct s with
  | step d v ih =>
    cases v with
    | list r => exact h r .refl
    | tuple id vs =>
      have items (w : Value) (hw : w ∈ vs) : ∃ e, s.Fits e w :=
        ih d vs (.tuple d id vs) w hw fun r path => h r (.head hw path)
      obtain ⟨e, fits⟩ := exists_fits_all items
      exact ⟨e, .items (.tuple e id vs) fits⟩
    | _ => exact ⟨0, .leaf nofun nofun⟩

/-- Where no list holds itself, going from list to list comes to an end, as there are only so
many. -/
theorem Acyclic.exists_fits (h : s.Acyclic v) : ∃ d, s.Fits d v := by
  let Met := { k : Fin s.lists.size // ReflTransGen s.HasItem v (.list ⟨k⟩) }
  let below (a b : Met) : Prop := TransGen s.HasItem (.list ⟨b.1⟩) (.list ⟨a.1⟩)
  have founded : WellFounded below := by
    have : IsTrans Met below := ⟨fun _ _ _ hab hbc => hbc.trans hab⟩
    have : Std.Irrefl below := ⟨fun k => h ⟨k.1⟩ k.2⟩
    exact Finite.wellFounded_of_trans_of_irrefl below
  have met (k : Met) : ∃ e, s.Fits e (.list ⟨k.1⟩) := by
    induction k using founded.induction with
    | _ k ih =>
      have items (w : Value) (hw : w ∈ (s.items ⟨k.1⟩).toList) : ∃ e, s.Fits e w := by
        refine exists_fits_of_lists 0 fun q path => ?_
        rcases Nat.lt_or_ge q.index s.lists.size with inside | outside
        · have later : TransGen s.HasItem (.list ⟨k.1⟩) (.list q) := .head' hw path
          exact ih ⟨⟨q.index, inside⟩, k.2.trans later.to_reflTransGen⟩ later
        · exact ⟨1, .items (.list 0 q) (by simp [toList_items_of_le outside])⟩
      obtain ⟨e, fits⟩ := exists_fits_all items
      exact ⟨e + 1, .items (.list e _) fits⟩
  refine exists_fits_of_lists 0 fun r path => ?_
  rcases Nat.lt_or_ge r.index s.lists.size with inside | outside
  · exact met ⟨⟨r.index, inside⟩, path⟩
  · exact ⟨1, .items (.list 0 r) (by simp [toList_items_of_le outside])⟩

theorem Acyclic.item (h : s.Acyclic v) (hw : w ∈ s.itemsOf v) : s.Acyclic w :=
  fun r path => h r (.head hw path)

theorem acyclic_tuple (id : Nat) : s.Acyclic (.tuple id vs) ↔ ∀ w ∈ vs, s.Acyclic w := by
  refine ⟨fun h w hw => h.item hw, fun h => ?_⟩
  obtain ⟨d, fits⟩ := exists_fits_all fun w hw => (h w hw).exists_fits
  exact Fits.acyclic (.items (.tuple d id vs) fits)

theorem exists_fits_iff : (∃ d, s.Fits d v) ↔ s.Acyclic v :=
  ⟨fun ⟨_, h⟩ => h.acyclic, Acyclic.exists_fits⟩

/-! ### Texts -/

theorem isSome_joinOnto? (text : String) (ts : List (Option String)) :
    (joinOnto? text ts).isSome ↔ ∀ t ∈ ts, t.isSome := by
  induction ts generalizing text with
  | nil => simp [joinOnto?]
  | cons t ts ih => cases t <;> simp [joinOnto?, ih]

theorem isSome_joined? (ts : List (Option String)) :
    (joined? ts).isSome ↔ ∀ t ∈ ts, t.isSome := by
  cases ts with
  | nil => simp [joined?]
  | cons t ts => cases t <;> simp [joined?, isSome_joinOnto?]

/-- A value has a text in a depth if and only if it fits in it. -/
theorem isSome_reprWithin (d : Nat) (v : Value) : (s.reprWithin d v).isSome ↔ s.Fits d v := by
  induction d, v using Opens.induct s with
  | step d v ih =>
    have texts {e : Nat} {vs : List Value} (opens : s.Opens d v e vs) :
        (joined? (vs.map (s.reprWithin e))).isSome ↔ s.Fits d v := by
      rw [isSome_joined?, List.forall_mem_map, opens.fits_iff]
      exact forall₂_congr fun w hw => ih e vs opens w hw
    cases v with
    | list r =>
      cases d with
      | zero => exact iff_of_false nofun (not_fits_zero r)
      | succ d => rw [reprWithin_list, Option.isSome_map, texts (.list d r)]
    | tuple id vs => rw [reprWithin_tuple, Option.isSome_map, texts (.tuple d id vs)]
    | _ => exact iff_of_true (by cases d <;> rfl) (.leaf nofun nofun)

theorem Fits.reprWithin_succ (h : s.Fits d v) : s.reprWithin (d + 1) v = s.reprWithin d v := by
  induction h with
  | items opens _ ih =>
    cases opens with
    | list d r => rw [reprWithin_list, reprWithin_list, List.map_congr_left ih]
    | tuple d id vs => rw [reprWithin_tuple, reprWithin_tuple, List.map_congr_left ih]
  | @leaf d v noList noTuple =>
    cases v with
    | list r => exact absurd rfl (noList r)
    | tuple id vs => exact absurd rfl (noTuple id vs)
    | _ => cases d <;> rfl

theorem Fits.reprWithin_eq (h : s.Fits d v) (le : d ≤ e) : s.reprWithin e v = s.reprWithin d v := by
  induction le with
  | refl => rfl
  | step le ih => exact (h.mono le).reprWithin_succ.trans ih

/-- A text is that of a value if it is so in any depth: the depth of the store is enough. -/
theorem repr?_eq_some_iff {t : String} : s.repr? v = some t ↔ ∃ d, s.reprWithin d v = some t := by
  refine ⟨fun found => ⟨_, found⟩, fun ⟨d, found⟩ => ?_⟩
  have fits : s.Fits d v := (isSome_reprWithin d v).1 (by rw [found]; rfl)
  have enough : s.Fits (s.lists.size + 1) v := fits.size_succ
  calc s.repr? v = s.reprWithin (max d (s.lists.size + 1)) v :=
        (enough.reprWithin_eq (Nat.le_max_right ..)).symm
    _ = s.reprWithin d v := fits.reprWithin_eq (Nat.le_max_left ..)
    _ = some t := found

/-- A value has a text if and only if it leads to no list that holds itself. -/
theorem exists_repr?_iff : (∃ t, s.repr? v = some t) ↔ s.Acyclic v := by
  rw [← Option.isSome_iff_exists, repr?, isSome_reprWithin, ← exists_fits_iff]
  exact ⟨fun h => ⟨_, h⟩, fun ⟨_, h⟩ => h.size_succ⟩

theorem exists_show?_iff : (∃ t, s.show? v = some t) ↔ s.Acyclic v := by
  rw [← exists_repr?_iff, ← Option.isSome_iff_exists, ← Option.isSome_iff_exists]
  cases v <;> rfl

end Store

end Footprint
