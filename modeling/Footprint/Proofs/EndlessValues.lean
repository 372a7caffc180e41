import Mathlib
import Footprint.Proofs.Acyclic
import Footprint.Proofs.MoreSteps
import Footprint.Proofs.OrderedValues
import Footprint.Session.Interpreter
import Footprint.Store.Builtin

set_option autoImplicit false

/-!
Which texts and comparisons of values end. What is asked of pairs of values in growing depths comes
out in the depth that the store admits or in none: of the pairs of lists that are opened inside each
other, some would have come back. So where nothing comes out, opening the values goes on and on.
-/

namespace Footprint

namespace Store

variable {s : Store} {d e n : Nat} {v w : Value} {vs ws : List Value} {β : Type}

/-! ### Questions about pairs of values -/

/-- What is asked of two values stays the same in greater depths, and if it takes a greater depth,
then so it does for items of both. -/
structure Deepens (s : Store) (ask : Nat → Value → Value → Option β) : Prop where
  succ {d : Nat} {v w : Value} {b : β} : ask d v w = some b → ask (d + 1) v w = some b
  deeper {d : Nat} {v w : Value} : (ask (d + 1) v w).isSome → ask d v w = none →
    (∃ a b, d = 0 ∧ v = .list a ∧ w = .list b) ∨
    ∃ e vs ws, s.Opens d v e vs ∧ s.Opens d w e ws ∧
      ∃ x ∈ vs, ∃ y ∈ ws, (ask (e + 1) x y).isSome ∧ ask e x y = none

namespace Deepens

variable {ask : Nat → Value → Value → Option β} {b : β}

theorem mono (h : s.Deepens ask) (found : ask d v w = some b) (le : d ≤ e) :
    ask e v w = some b := by
  induction le with
  | refl => exact found
  | step _ ih => exact h.succ ih

/-- Two lists of which it is just this depth that does not suffice. -/
def IsRanked (ask : Nat → Value → Value → Option β) (n : Nat) (a b : ListRef) : Prop :=
  (ask (n + 1) (.list a) (.list b)).isSome ∧ ask n (.list a) (.list b) = none

theorem IsRanked.le {a b : ListRef} {m : Nat} (h : s.Deepens ask) (hn : IsRanked ask n a b)
    (hm : IsRanked ask m a b) : n ≤ m := by
  by_contra less
  obtain ⟨c, found⟩ := Option.isSome_iff_exists.1 hm.1
  cases hn.2.symm.trans (h.mono found (Nat.lt_of_not_le less))

/-- Where a depth does not suffice and the next one does, this is because of two lists. -/
theorem exists_isRanked (h : s.Deepens ask) (found : (ask (d + 1) v w).isSome)
    (lost : ask d v w = none) : ∃ a b, IsRanked ask d a b := by
  induction d, v using Opens.induct s generalizing w with
  | step d v ih =>
    rcases h.deeper found lost with ⟨a, b, rfl, rfl, rfl⟩ | ⟨e, vs, ws, hv, hw, x, hx, y, hy, items⟩
    · exact ⟨a, b, found, lost⟩
    · cases hv with
      | list d a =>
        cases hw with
        | list _ b => exact ⟨a, b, found, lost⟩
      | tuple d id => exact ih d vs (.tuple d id vs) x hx items.1 items.2

theorem IsRanked.below (h : s.Deepens ask) {a b : ListRef} (ranked : IsRanked ask (n + 1) a b) :
    (a.index < s.lists.size ∧ b.index < s.lists.size) ∧ ∃ a b, IsRanked ask n a b := by
  rcases h.deeper ranked.1 ranked.2 with ⟨_, _, none, -⟩ | ⟨e, vs, ws, hv, hw, x, hx, y, hy, items⟩
  · cases none
  · cases hv
    cases hw
    refine ⟨⟨?_, ?_⟩, h.exists_isRanked items.1 items.2⟩
    · by_contra outside
      rw [toList_items_of_le (Nat.le_of_not_lt outside)] at hx
      exact List.not_mem_nil hx
    · by_contra outside
      rw [toList_items_of_le (Nat.le_of_not_lt outside)] at hy
      exact List.not_mem_nil hy

/-- No more pairs of lists are opened inside each other than there are in the store. -/
theorem IsRanked.le_size (h : s.Deepens ask) {a b : ListRef} (ranked : IsRanked ask n a b) :
    n ≤ s.lists.size * s.lists.size := by
  cases n with
  | zero => exact Nat.zero_le _
  | succ n =>
    let ranks (m : Nat) (k : Fin s.lists.size × Fin s.lists.size) : Prop :=
      IsRanked ask (m + 1) ⟨k.1⟩ ⟨k.2⟩
    obtain ⟨ha, hb⟩ := (ranked.below h).1
    have bound : n < Fintype.card (Fin s.lists.size × Fin s.lists.size) := by
      refine lt_card_of_ranked ranks (fun hn hm => ?_) (fun {m k} hm => ?_)
        (k := (⟨a.index, ha⟩, ⟨b.index, hb⟩)) ranked
      · exact Nat.succ.inj (Nat.le_antisymm (IsRanked.le h hn hm) (IsRanked.le h hm hn))
      · obtain ⟨-, c, e, lower⟩ := IsRanked.below h hm
        obtain ⟨hc, he⟩ := (lower.below h).1
        exact ⟨(⟨c.index, hc⟩, ⟨e.index, he⟩), lower⟩
    rw [Fintype.card_prod, Fintype.card_fin] at bound
    exact bound

/-- What comes out in some depth does so in the one that the store admits. -/
theorem iff (h : s.Deepens ask) : ask s.pairDepth v w = some b ↔ ∃ d, ask d v w = some b := by
  refine ⟨fun found => ⟨_, found⟩, fun ⟨d, found⟩ => ?_⟩
  induction d with
  | zero => exact h.mono found (Nat.zero_le _)
  | succ d ih =>
    cases before : ask d v w with
    | some c =>
      obtain rfl : c = b := Option.some_inj.1 ((h.succ before).symm.trans found)
      exact ih before
    | none =>
      obtain ⟨x, y, ranked⟩ := h.exists_isRanked (by rw [found]; rfl) before
      exact h.mono found (Nat.succ_le_succ (ranked.le_size h))

end Deepens

/-! ### Comparisons -/

theorem deepens_equalWithin (s : Store) : s.Deepens s.equalWithin where
  succ := equalWithin_succ
  deeper {d v w} found lost := by
    rcases s.pair_cases d v w with ⟨r, rfl, rfl⟩ | ⟨⟨e, vs, ws, hv, hw⟩, different⟩ |
      ⟨a, b, -, lists⟩ | apart
    · rw [equalWithin_list_self] at lost
      cases lost
    · rw [equalWithin_opens hv.succ hw.succ different] at found
      rw [equalWithin_opens hv hw different] at lost
      split at lost
      · next length =>
        rw [if_pos length] at found
        exact .inr ⟨e, vs, ws, hv, hw, allEqual_deeper (fun _ _ _ _ => equalWithin_succ) found lost⟩
      · cases lost
    · exact .inl ⟨a, b, lists⟩
    · rw [equalWithin_apart apart] at lost
      cases lost

section

variable {order order' : Value → Value → Attempt (Option Ordering)} {op : CompareOp}

theorem orderOfItems_mono {r : Except Fault (Option Ordering)}
    (more : ∀ v ∈ vs, ∀ w r, (order v w).run = some r → (order' v w).run = some r)
    (found : (orderOfItems s.equal? order vs ws).run = some r) :
    (orderOfItems s.equal? order' vs ws).run = some r := by
  induction vs generalizing ws with
  | nil => cases ws <;> exact found
  | cons v vs ih =>
    cases ws with
    | nil => exact found
    | cons w ws =>
      rw [orderOfItems_cons] at found ⊢
      rcases first : s.equal? v w with _ | _ | _
      · rw [first] at found
        cases found
      · rw [first] at found
        exact more v (.head _) w r found
      · rw [first] at found
        exact ih (fun v hv => more v (.tail _ hv)) found

theorem orderOfItems_deeper (found : (orderOfItems s.equal? order' vs ws).run.isSome)
    (lost : (orderOfItems s.equal? order vs ws).run = none) :
    ∃ x ∈ vs, ∃ y ∈ ws, (order' x y).run.isSome ∧ (order x y).run = none := by
  induction vs generalizing ws with
  | nil => cases ws <;> cases lost
  | cons v vs ih =>
    cases ws with
    | nil => cases lost
    | cons w ws =>
      rw [orderOfItems_cons] at found lost
      rcases first : s.equal? v w with _ | _ | _
      · rw [first] at found
        cases found
      · rw [first] at found lost
        exact ⟨v, .head _, w, .head _, found, lost⟩
      · rw [first] at found lost
        obtain ⟨x, hx, y, hy, items⟩ := ih found lost
        exact ⟨x, .tail _ hx, y, .tail _ hy, items⟩

theorem orderWithin_succ {r : Except Fault (Option Ordering)}
    (found : (s.orderWithin op d v w).run = some r) :
    (s.orderWithin op (d + 1) v w).run = some r := by
  induction d, v using Opens.induct s generalizing w r with
  | step d v ih =>
    rcases s.opened_cases d v w with ⟨e, vs, ws, hv, hw⟩ | ⟨a, b, rfl, rfl, rfl⟩ | apart
    · rw [orderWithin_opens hv hw] at found
      rw [orderWithin_opens hv.succ hw.succ]
      exact orderOfItems_mono (fun x hx w r => ih e vs hv x hx) found
    · cases found
    · rwa [orderWithin_apart apart] at found ⊢

theorem deepens_orderWithin (s : Store) (op : CompareOp) :
    s.Deepens fun d v w => (s.orderWithin op d v w).run where
  succ := orderWithin_succ
  deeper {d v w} found lost := by
    rcases s.opened_cases d v w with ⟨e, vs, ws, hv, hw⟩ | lists | apart
    · rw [orderWithin_opens hv.succ hw.succ] at found
      rw [orderWithin_opens hv hw] at lost
      exact .inr ⟨e, vs, ws, hv, hw, orderOfItems_deeper found lost⟩
    · exact .inl lists
    · rw [orderWithin_apart apart] at lost
      cases lost

end

theorem exists_equal? (h : s.Acyclic v ∨ s.Acyclic w) : ∃ b, s.equal? v w = some b := by
  obtain ⟨d, fits⟩ | ⟨d, fits⟩ := h.imp Acyclic.exists_fits Acyclic.exists_fits
  · exact exists_equalWithin (.inl fits.pairDepth)
  · exact exists_equalWithin (.inr fits.pairDepth)

theorem exists_run_order (h : s.Acyclic v ∨ s.Acyclic w) (op : CompareOp) :
    ∃ r, (s.order op v w).run = some r := by
  obtain ⟨d, fits⟩ | ⟨d, fits⟩ := h.imp Acyclic.exists_fits Acyclic.exists_fits
  · exact exists_run (.inl fits.pairDepth) op
  · exact exists_run (.inr fits.pairDepth) op

theorem exists_anyEqual? (h : ∀ w ∈ vs, s.Acyclic w ∨ s.Acyclic v) :
    ∃ b, s.anyEqual? v vs = some b := by
  induction vs with
  | nil => exact ⟨false, rfl⟩
  | cons w vs ih =>
    obtain ⟨_ | _, found⟩ := exists_equal? (h w (.head _))
    · obtain ⟨b, others⟩ := ih fun x hx => h x (.tail _ hx)
      exact ⟨b, by simp [anyEqual?, found, others]⟩
    · exact ⟨true, by simp [anyEqual?, found]⟩

theorem exists_run_map {α β : Type} {x : Attempt α} (h : ∃ r, x.run = some r) (f : α → β) :
    ∃ r, (do return f (← x) : Attempt β).run = some r := by
  obtain ⟨r, found⟩ := h
  exact ⟨r.map f, by simp [found]⟩

/-- Whatever is asked of two values, the answer does not take both to be without cycles. -/
theorem exists_run_compare (h : s.Acyclic v ∨ s.Acyclic w) (op : CompareOp) :
    ∃ r, (s.compare op v w).run = some r := by
  have contained : ∃ r, (s.contains w v).run = some r := by
    cases w with
    | list r =>
      obtain ⟨b, found⟩ : ∃ b, s.anyEqual? v (s.items r).toList = some b :=
        exists_anyEqual? fun x hx => h.symm.imp_left fun acyclic => acyclic.item hx
      exact ⟨.ok b, by simp [contains, found, attempt]⟩
    | tuple id ws =>
      obtain ⟨b, found⟩ : ∃ b, s.anyEqual? v ws = some b :=
        exists_anyEqual? fun x hx => h.symm.imp_left fun acyclic => acyclic.item hx
      exact ⟨.ok b, by simp [contains, found, attempt]⟩
    | str text => cases v <;> exact ⟨_, rfl⟩
    | _ => exact ⟨_, rfl⟩
  cases op with
  | eq =>
    obtain ⟨b, found⟩ := exists_equal? h
    exact ⟨.ok b, by simp [compare, found, attempt]⟩
  | notEq =>
    obtain ⟨b, found⟩ := exists_equal? h
    exact ⟨.ok !b, by simp [compare, found, attempt]⟩
  | same | notSame => exact ⟨_, rfl⟩
  | isIn => exact contained
  | notIn => exact exists_run_map contained _
  | lt | le | gt | ge => exact exists_run_map (exists_run_order h _) _

/-- The text of a value ends if and only if the value leads to no list that holds itself, and so
does an exception's message; comparing two values ends if one of them leads to no such list. What
does not end here ends in no depth. -/
theorem values_end (s : Store) (v w : Value) :
    ((∃ t, s.repr? v = some t) ↔ s.Acyclic v) ∧
    ((∃ t, s.show? v = some t) ↔ s.Acyclic v) ∧
    (∀ args, (∃ t, s.exceptionText? args = some t) ↔ ∀ u ∈ args, s.Acyclic u) ∧
    (s.Acyclic v ∨ s.Acyclic w → ∀ op, ∃ r, (s.compare op v w).run = some r) ∧
    (∀ t, s.repr? v = some t ↔ ∃ d, s.reprWithin d v = some t) ∧
    (∀ b, s.equal? v w = some b ↔ ∃ d, s.equalWithin d v w = some b) ∧
    ∀ op r, (s.order op v w).run = some r ↔ ∃ d, (s.orderWithin op d v w).run = some r := by
  refine ⟨exists_repr?_iff, exists_show?_iff, fun args => ?_, exists_run_compare,
    fun _ => repr?_eq_some_iff, fun _ => (deepens_equalWithin s).iff,
    fun op _ => (deepens_orderWithin s op).iff⟩
  match args with
  | [] => simp [exceptionText?]
  | [u] => simpa [exceptionText?] using exists_show?_iff
  | u :: u' :: us => exact exists_show?_iff.trans (acyclic_tuple s.nextId)

/-- A list in a tuple has a text, and comparing the tuple with a list that holds itself ends. -/
theorem values_end_one_cyclic :
    let s : Store := { Store.empty with lists := #[#[.int 1], #[.list ⟨1⟩]] }
    s.Acyclic (.tuple 0 [.list ⟨0⟩]) ∧
      ∃ r, (s.compare .lt (.tuple 0 [.list ⟨0⟩]) (.list ⟨1⟩)).run = some r := by
  intro s
  have ends := values_end s (.tuple 0 [.list ⟨0⟩]) (.list ⟨1⟩)
  have acyclic : s.Acyclic (.tuple 0 [.list ⟨0⟩]) := ends.1.1 ⟨"([1],)", by decide +kernel⟩
  exact ⟨acyclic, ends.2.2.2.1 (.inl acyclic) .lt⟩

/-- Of two lists that are their own only items nothing comes out in any depth. -/
theorem endless_pair {a b : ListRef} (ne : a ≠ b) (ha : (s.items a).toList = [.list a])
    (hb : (s.items b).toList = [.list b]) (d : Nat) :
    s.reprWithin d (.list a) = none ∧ s.equalWithin d (.list a) (.list b) = none ∧
      ∀ op, (s.orderWithin op d (.list a) (.list b)).run = none := by
  have equal (d : Nat) : s.equalWithin d (.list a) (.list b) = none := by
    induction d with
    | zero => exact equalWithin_zero ne
    | succ d ih =>
      rw [equalWithin_lists ne, ha, hb, if_pos (by rfl), allEqual_cons, ih]
  refine ⟨?_, equal d, fun op => ?_⟩
  · have item : s.HasItem (.list a) (.list a) := by simp [HasItem, itemsOf, ha]
    have cycle : ¬s.Acyclic (.list a) := fun h => h a .refl (.single item)
    rw [← exists_fits_iff] at cycle
    rw [← Option.not_isSome_iff_eq_none, isSome_reprWithin]
    exact fun fits => cycle ⟨d, fits⟩
  · cases d with
    | zero => rfl
    | succ d =>
      rw [orderWithin_opens (.list d a) (.list d b), ha, hb, orderOfItems_cons, equal?, equal]

end Store

namespace Interpreter

variable {ω : Type} {i : Interpreter ω} {μ : Monitors ω}

theorem not_runsTo (k : Nat) (h : ∀ n, (i.run (n + k) μ).isSome = false)
    (r : Except Failure Unit × Interpreter ω × Monitors ω) : ¬i.RunsTo μ r := by
  rintro ⟨n, ended⟩
  have later := h n
  rw [run_mono (Nat.le_add_right n k) ended] at later
  cases later

/-- Statements that make two lists and append each to itself. -/
def cyclicLists : List Stmt :=
  [.assign [.name "a" ⟨1, 1⟩] (.list [] ⟨1, 5⟩) ⟨1, 1⟩,
    .expr (.call (.member (.name "a" ⟨2, 1⟩) "append" ⟨2, 1⟩) [.name "a" ⟨2, 10⟩] ⟨2, 1⟩) ⟨2, 1⟩,
    .assign [.name "b" ⟨3, 1⟩] (.list [] ⟨3, 5⟩) ⟨3, 1⟩,
    .expr (.call (.member (.name "b" ⟨4, 1⟩) "append" ⟨4, 1⟩) [.name "b" ⟨4, 10⟩] ⟨4, 1⟩) ⟨4, 1⟩]

/-- A program of these and one more expression. -/
def withCyclicLists (source : String) (e : Expr) : Program :=
  ⟨source, ⟨cyclicLists ++ [.expr e ⟨5, 1⟩]⟩⟩

def printingCyclicList : Program :=
  withCyclicLists "a = []\na.append(a)\nb = []\nb.append(b)\nprint(a)\n"
    (.call (.name "print" ⟨5, 1⟩) [.name "a" ⟨5, 7⟩] ⟨5, 1⟩)

def comparingCyclicLists (op : CompareOp) : Program :=
  withCyclicLists "" (.compare (.name "a" ⟨5, 1⟩) [(op, .name "b" ⟨5, 6⟩)] ⟨5, 1⟩)

theorem ofSource_printingCyclicList :
    Program.ofSource printingCyclicList.source = .ok printingCyclicList := by
  cbv

/-- A script makes two lists that hold themselves. In no depth do they have a text or compare, and
the script does not end if it goes on to print one or to ask if they are equal or which is less. -/
theorem endless_values :
    (∃ j ν, (new ⟨"", ⟨cyclicLists⟩⟩ .default .steady : Interpreter Unit).run 8 ⟨#[], ()⟩ =
        some (.ok (), j, ν) ∧
      ∀ d, j.machine.store.reprWithin d (.list ⟨0⟩) = none ∧
        j.machine.store.equalWithin d (.list ⟨0⟩) (.list ⟨1⟩) = none ∧
        ∀ op, (j.machine.store.orderWithin op d (.list ⟨0⟩) (.list ⟨1⟩)).run = none) ∧
    Program.ofSource printingCyclicList.source = .ok printingCyclicList ∧
    ∀ p ∈ [printingCyclicList, comparingCyclicLists .eq, comparingCyclicLists .lt],
      ∀ r, ¬(new p .default .steady : Interpreter Unit).RunsTo ⟨#[], ()⟩ r := by
  refine ⟨⟨_, _, by cbv, Store.endless_pair (by decide) rfl rfl⟩, ofSource_printingCyclicList, ?_⟩
  simp only [List.forall_mem_cons]
  exact ⟨not_runsTo 8 fun n => by cbv, not_runsTo 8 fun n => by cbv, not_runsTo 8 fun n => by cbv,
    List.forall_mem_nil _⟩

end Interpreter

end Footprint
