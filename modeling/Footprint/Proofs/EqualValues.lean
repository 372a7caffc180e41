import Footprint.Proofs.ValueDepth

set_option autoImplicit false

/-!
Equality of values without floats. It is symmetric, and transitive as far as the comparisons end:
lists and tuples are equal item by item, and all other values as the standard values that stand for
them.
-/

namespace Footprint

namespace Value

/-- One value for all that are equal to this one; floats, bound methods, lists and tuples are not
compared in this way. -/
def standard? : Value → Option Value
  | .float _ | .list _ | .tuple .. | .method .. => Option.none
  | .bool b => some (.int (if b then 1 else 0))
  | .classObject _ scope _ => some (.classObject "" scope false)
  | .exception id _ _ => some (.exception id "" "")
  | v => some v

/-- The values are neither both lists nor both tuples. -/
def Apart (v w : Value) : Prop :=
  (∀ a b, ¬(v = .list a ∧ w = .list b)) ∧ ∀ i vs j ws, ¬(v = .tuple i vs ∧ w = .tuple j ws)

variable {v w t : Value}

theorem Apart.symm (h : Apart v w) : Apart w v :=
  ⟨fun a b both => h.1 b a both.symm, fun i vs j ws both => h.2 j ws i vs both.symm⟩

theorem apart_of_standard? (h : v.standard? = some t) (w : Value) : Apart v w := by
  constructor <;> intros <;> rintro ⟨rfl, -⟩ <;> cases h

theorem atomsEqual_iff (hv : ∀ x, v ≠ .float x) (hw : ∀ x, w ≠ .float x) (apart : Apart v w) :
    atomsEqual v w = true ↔ ∃ t, v.standard? = some t ∧ w.standard? = some t := by
  cases v <;> cases w
  case list.list => exact absurd ⟨rfl, rfl⟩ (apart.1 _ _)
  case tuple.tuple => exact absurd ⟨rfl, rfl⟩ (apart.2 _ _ _ _)
  all_goals
    simp_all [atomsEqual, numbersEqual, isNumber, asInt?, isSame, standard?]
    try exact eq_comm

theorem equalItemsWith_eq (lists : ListRef → ListRef → Option Bool) (vs ws : List Value) :
    equalItemsWith lists vs ws = allEqual (equalWith lists) vs ws := by
  induction vs generalizing ws with
  | nil => rfl
  | cons v vs ih =>
    cases ws with
    | nil => rfl
    | cons w ws => simp only [equalItemsWith, allEqual, ih]

end Value

/-! ### Equality in pairs -/

section

variable {equal equal' : Value → Value → Option Bool} {vs ws us : List Value}

theorem allEqual_cons (equal : Value → Value → Option Bool) (v w : Value) (vs ws : List Value) :
    allEqual equal (v :: vs) (w :: ws) =
      match equal v w with
      | some true => allEqual equal vs ws
      | b => b := by
  rw [allEqual]
  rcases equal v w with _ | _ | _ <;> rfl

theorem allEqual_eq_true (length : vs.length = ws.length) :
    allEqual equal vs ws = some true ↔ List.Forall₂ (equal · · = some true) vs ws := by
  induction vs generalizing ws with
  | nil =>
    cases ws with
    | nil => exact iff_of_true rfl .nil
    | cons => cases length
  | cons v vs ih =>
    cases ws with
    | nil => cases length
    | cons w ws =>
      rw [List.forall₂_cons, ← ih (Nat.succ.inj length), allEqual_cons]
      rcases equal v w with _ | _ | _ <;> simp

/-- Where no pair is found unequal, the sequences are not. -/
theorem allEqual_ne_false (h : List.Forall₂ (equal · · ≠ some false) vs ws) :
    allEqual equal vs ws ≠ some false := by
  induction h with
  | nil => nofun
  | @cons v w vs ws first _ ih =>
    rw [allEqual_cons]
    rcases found : equal v w with _ | _ | _
    · nofun
    · exact absurd found first
    · exact ih

theorem allEqual_comm (h : ∀ v ∈ vs, ∀ w ∈ ws, equal v w = equal w v) :
    allEqual equal vs ws = allEqual equal ws vs := by
  induction vs generalizing ws with
  | nil => cases ws <;> rfl
  | cons v vs ih =>
    cases ws with
    | nil => rfl
    | cons w ws =>
      rw [allEqual_cons, allEqual_cons, h v (.head _) w (.head _),
        ih fun v hv w hw => h v (.tail _ hv) w (.tail _ hw)]

theorem allEqual_mono (h : ∀ v ∈ vs, ∀ w b, equal v w = some b → equal' v w = some b) {b : Bool}
    (found : allEqual equal vs ws = some b) : allEqual equal' vs ws = some b := by
  induction vs generalizing ws with
  | nil => cases ws <;> exact found
  | cons v vs ih =>
    cases ws with
    | nil => exact found
    | cons w ws =>
      rw [allEqual_cons] at found ⊢
      rcases first : equal v w with _ | _ | _
      · rw [first] at found
        cases found
      · rw [first] at found
        rw [h v (.head _) w false first]
        exact found
      · rw [first] at found
        rw [h v (.head _) w true first]
        exact ih (fun v hv => h v (.tail _ hv)) found

/-- Where all pairs of items together take more, some pair does. -/
theorem allEqual_deeper (more : ∀ v ∈ vs, ∀ w b, equal v w = some b → equal' v w = some b)
    (found : (allEqual equal' vs ws).isSome) (lost : allEqual equal vs ws = none) :
    ∃ x ∈ vs, ∃ y ∈ ws, (equal' x y).isSome ∧ equal x y = none := by
  induction vs generalizing ws with
  | nil => cases ws <;> cases lost
  | cons v vs ih =>
    cases ws with
    | nil => cases lost
    | cons w ws =>
      rw [allEqual_cons] at found lost
      rcases first : equal v w with _ | _ | _
      · refine ⟨v, .head _, w, .head _, ?_, first⟩
        rcases first' : equal' v w with _ | b
        · rw [first'] at found
          cases found
        · rfl
      · rw [first] at lost
        cases lost
      · rw [first] at lost
        rw [more v (.head _) w true first] at found
        obtain ⟨x, hx, y, hy, items⟩ := ih (fun v hv => more v (.tail _ hv)) found lost
        exact ⟨x, .tail _ hx, y, .tail _ hy, items⟩

theorem exists_allEqual (h : ∀ v ∈ vs, ∀ w ∈ ws, ∃ b, equal v w = some b) :
    ∃ b, allEqual equal vs ws = some b := by
  induction vs generalizing ws with
  | nil => cases ws <;> exact ⟨true, rfl⟩
  | cons v vs ih =>
    cases ws with
    | nil => exact ⟨true, rfl⟩
    | cons w ws =>
      rw [allEqual_cons]
      obtain ⟨_ | _, found⟩ := h v (.head _) w (.head _) <;> rw [found]
      · exact ⟨false, rfl⟩
      · exact ih fun v hv w hw => h v (.tail _ hv) w (.tail _ hw)

theorem forall₂_trans {α : Type} {p q r : α → α → Prop} {as bs cs : List α}
    (trans : ∀ a ∈ as, ∀ b ∈ bs, ∀ c ∈ cs, p a b → q b c → r a c) (left : List.Forall₂ p as bs)
    (right : List.Forall₂ q bs cs) : List.Forall₂ r as cs := by
  induction left generalizing cs with
  | nil =>
    cases right
    exact .nil
  | cons first _ ih =>
    cases right with
    | cons second others =>
      refine .cons (trans _ (.head _) _ (.head _) _ (.head _) first second) (ih ?_ others)
      exact fun a ha b hb c hc => trans a (.tail _ ha) b (.tail _ hb) c (.tail _ hc)

end

namespace Store

variable {s : Store} {d e : Nat} {v w u : Value} {vs ws us : List Value}

/-! ### What equality comes to -/

theorem equalWithin_list_self (d : Nat) (r : ListRef) :
    s.equalWithin d (.list r) (.list r) = some true := by
  cases d <;> simp [equalWithin, Value.equalWith]

theorem equalWithin_zero {a b : ListRef} (h : a ≠ b) :
    s.equalWithin 0 (.list a) (.list b) = none := by
  simp [equalWithin, Value.equalWith, h]

theorem equalWithin_apart (h : Value.Apart v w) (d : Nat) :
    s.equalWithin d v w = some (Value.atomsEqual v w) := by
  cases d <;> cases v <;> cases w <;>
    first
      | rfl
      | exact absurd ⟨rfl, rfl⟩ (h.1 _ _)
      | exact absurd ⟨rfl, rfl⟩ (h.2 _ _ _ _)

theorem equalWithin_tuples (d i j : Nat) (vs ws : List Value) :
    s.equalWithin d (.tuple i vs) (.tuple j ws) =
      if vs.length = ws.length then allEqual (s.equalWithin d) vs ws else some false := by
  cases d <;> simp only [equalWithin, Value.equalWith, Value.equalItemsWith_eq]

theorem equalWithin_lists {a b : ListRef} (h : a ≠ b) :
    s.equalWithin (d + 1) (.list a) (.list b) =
      if (s.items a).toList.length = (s.items b).toList.length then
        allEqual (s.equalWithin d) (s.items a).toList (s.items b).toList
      else some false := by
  simp only [equalWithin, Value.equalWith, if_neg h, Array.length_toList]
  rfl

theorem equalWithin_opens (hv : s.Opens d v e vs) (hw : s.Opens d w e ws)
    (different : ∀ r, ¬(v = .list r ∧ w = .list r)) :
    s.equalWithin d v w =
      if vs.length = ws.length then allEqual (s.equalWithin e) vs ws else some false := by
  cases hv with
  | list _ a =>
    cases hw with
    | list _ b => exact equalWithin_lists fun same => different a ⟨rfl, same ▸ rfl⟩
  | tuple _ i =>
    cases hw with
    | tuple _ j => exact equalWithin_tuples d i j vs ws

/-- Two values are the same list, or both are opened, or they are apart; at depth zero there may
also be two lists, which are not opened. -/
theorem pair_cases (s : Store) (d : Nat) (v w : Value) :
    (∃ r, v = .list r ∧ w = .list r) ∨
    ((∃ e vs ws, s.Opens d v e vs ∧ s.Opens d w e ws) ∧ ∀ r, ¬(v = .list r ∧ w = .list r)) ∨
    (∃ a b, a ≠ b ∧ d = 0 ∧ v = .list a ∧ w = .list b) ∨
    Value.Apart v w := by
  by_cases lists : ∃ a b, v = .list a ∧ w = .list b
  · obtain ⟨a, b, rfl, rfl⟩ := lists
    by_cases same : a = b
    · exact .inl ⟨a, rfl, same ▸ rfl⟩
    · cases d with
      | zero => exact .inr (.inr (.inl ⟨a, b, same, rfl, rfl, rfl⟩))
      | succ d =>
        refine .inr (.inl ⟨⟨d, _, _, .list d a, .list d b⟩, fun r both => same ?_⟩)
        exact Value.list.inj (both.1.trans both.2.symm)
  · by_cases tuples : ∃ i vs j ws, v = .tuple i vs ∧ w = .tuple j ws
    · obtain ⟨i, vs, j, ws, rfl, rfl⟩ := tuples
      refine .inr (.inl ⟨⟨d, vs, ws, .tuple d i vs, .tuple d j ws⟩, fun r both => ?_⟩)
      cases both.1
    · exact .inr (.inr (.inr ⟨fun a b h => lists ⟨a, b, h⟩,
        fun i vs j ws h => tuples ⟨i, vs, j, ws, h⟩⟩))

/-- Two values are opened, or at depth zero they are lists, or they are apart. -/
theorem opened_cases (s : Store) (d : Nat) (v w : Value) :
    (∃ e vs ws, s.Opens d v e vs ∧ s.Opens d w e ws) ∨
    (∃ a b, d = 0 ∧ v = .list a ∧ w = .list b) ∨ Value.Apart v w := by
  rcases s.pair_cases d v w with ⟨r, rfl, rfl⟩ | ⟨opened, -⟩ | ⟨a, b, -, lists⟩ | apart
  · cases d with
    | zero => exact .inr (.inl ⟨r, r, rfl, rfl, rfl⟩)
    | succ d => exact .inl ⟨d, _, _, .list d r, .list d r⟩
  · exact .inl opened
  · exact .inr (.inl ⟨a, b, lists⟩)
  · exact .inr (.inr apart)

theorem Opens.not_apart (hv : s.Opens d v e vs) (hw : s.Opens d w e ws) : ¬Value.Apart v w := by
  intro apart
  cases hv with
  | list =>
    cases hw
    exact apart.1 _ _ ⟨rfl, rfl⟩
  | tuple =>
    cases hw
    exact apart.2 _ _ _ _ ⟨rfl, rfl⟩

/-! ### Laws -/

theorem equalWithin_comm (d : Nat) (v w : Value) (hv : s.FloatFree v) (hw : s.FloatFree w) :
    s.equalWithin d v w = s.equalWithin d w v := by
  induction d, v using Opens.induct s generalizing w with
  | step d v ih =>
    rcases s.pair_cases d v w with ⟨r, rfl, rfl⟩ | ⟨⟨e, vs, ws, hv', hw'⟩, different⟩ |
      ⟨a, b, ne, rfl, rfl, rfl⟩ | apart
    · rfl
    · have items := allEqual_comm fun x hx y hy =>
        ih e vs hv' x hx y (hv.opened hv' hx) (hw.opened hw' hy)
      rw [equalWithin_opens hv' hw' different, items,
        equalWithin_opens hw' hv' fun r both => different r both.symm]
      simp only [eq_comm]
    · rw [equalWithin_zero ne, equalWithin_zero ne.symm]
    · rw [equalWithin_apart apart, equalWithin_apart apart.symm, Option.some_inj, Bool.eq_iff_iff,
        Value.atomsEqual_iff hv.ne_float hw.ne_float apart,
        Value.atomsEqual_iff hw.ne_float hv.ne_float apart.symm]
      exact exists_congr fun t => and_comm

theorem equalWithin_succ {b : Bool} (found : s.equalWithin d v w = some b) :
    s.equalWithin (d + 1) v w = some b := by
  induction d, v using Opens.induct s generalizing w b with
  | step d v ih =>
    rcases s.pair_cases d v w with ⟨r, rfl, rfl⟩ | ⟨⟨e, vs, ws, hv, hw⟩, different⟩ |
      ⟨a, b, ne, rfl, rfl, rfl⟩ | apart
    · rwa [equalWithin_list_self] at found ⊢
    · rw [equalWithin_opens hv hw different] at found
      rw [equalWithin_opens hv.succ hw.succ different]
      split
      · next length =>
        rw [if_pos length] at found
        exact allEqual_mono (fun x hx y b => ih e vs hv x hx) found
      · next length => rwa [if_neg length] at found
    · rw [equalWithin_zero ne] at found
      cases found
    · rwa [equalWithin_apart apart] at found ⊢

theorem equalWithin_mono {b : Bool} (found : s.equalWithin d v w = some b) (le : d ≤ e) :
    s.equalWithin e v w = some b := by
  induction le with
  | refl => exact found
  | step _ ih => exact equalWithin_succ ih

/-- Equal values are the same list, or have equal items, or the same value stands for both. -/
theorem equalWithin_true_cases (hv : s.FloatFree v) (hw : s.FloatFree w)
    (found : s.equalWithin d v w = some true) :
    (∃ r, v = .list r ∧ w = .list r) ∨
    (∃ e vs ws, s.Opens d v e vs ∧ s.Opens d w e ws ∧
      List.Forall₂ (s.equalWithin e · · = some true) vs ws) ∨
    ∃ t, v.standard? = some t ∧ w.standard? = some t := by
  rcases s.pair_cases d v w with same | ⟨⟨e, vs, ws, hv', hw'⟩, different⟩ |
    ⟨a, b, ne, rfl, rfl, rfl⟩ | apart
  · exact .inl same
  · rw [equalWithin_opens hv' hw' different] at found
    split at found
    · next length => exact .inr (.inl ⟨e, vs, ws, hv', hw', (allEqual_eq_true length).1 found⟩)
    · cases found
  · rw [equalWithin_zero ne] at found
    cases found
  · rw [equalWithin_apart apart, Option.some_inj,
      Value.atomsEqual_iff hv.ne_float hw.ne_float apart] at found
    exact .inr (.inr found)

theorem Opens.standard?_eq (h : s.Opens d v e vs) : v.standard? = none := by
  cases h <;> rfl

/-- Values that are equal to one are not unequal. -/
theorem equalWithin_trans (hv : s.FloatFree v) (hw : s.FloatFree w) (hu : s.FloatFree u)
    (left : s.equalWithin d v w = some true) (right : s.equalWithin d w u = some true) :
    s.equalWithin d v u ≠ some false := by
  induction d, v using Opens.induct s generalizing w u with
  | step d v ih =>
    rcases equalWithin_true_cases hv hw left with ⟨r, rfl, rfl⟩ | ⟨e, vs, ws, hv', hw', items⟩ |
      ⟨t, tv, tw⟩
    · rw [right]
      nofun
    · rcases equalWithin_true_cases hw hu right with ⟨r, rfl, rfl⟩ |
        ⟨f, ws', us, hw'', hu', items'⟩ | ⟨t, tw, tu⟩
      · rw [left]
        nofun
      · obtain rfl := hw'.depth_eq hw''
        obtain rfl := hw'.items_eq hw''
        have items : List.Forall₂ (s.equalWithin f · · ≠ some false) vs us := by
          refine forall₂_trans (fun x hx y hy z hz left right => ?_) items items'
          exact ih f vs hv' x hx (hv.opened hv' hx) (hw.opened hw' hy) (hu.opened hu' hz) left right
        by_cases same : ∃ r, v = .list r ∧ u = .list r
        · obtain ⟨r, rfl, rfl⟩ := same
          rw [equalWithin_list_self]
          nofun
        · rw [equalWithin_opens hv' hu' fun r both => same ⟨r, both⟩, if_pos items.length_eq]
          exact allEqual_ne_false items
      · rw [hw'.standard?_eq] at tw
        cases tw
    · rcases equalWithin_true_cases hw hu right with ⟨r, rfl, rfl⟩ |
        ⟨f, ws', us, hw'', hu', items'⟩ | ⟨t', tw', tu⟩
      · cases tw
      · rw [hw''.standard?_eq] at tw
        cases tw
      · obtain rfl : t = t' := Option.some_inj.1 (tw.symm.trans tw')
        have apart := Value.apart_of_standard? tv u
        rw [equalWithin_apart apart,
          (Value.atomsEqual_iff hv.ne_float hu.ne_float apart).2 ⟨t, tv, tu⟩]
        nofun

/-- Whether two values are equal comes out if one of them fits in the depth. -/
theorem exists_equalWithin (h : s.Fits d v ∨ s.Fits d w) : ∃ b, s.equalWithin d v w = some b := by
  induction d, v using Opens.induct s generalizing w with
  | step d v ih =>
    rcases s.pair_cases d v w with ⟨r, rfl, rfl⟩ | ⟨⟨e, vs, ws, hv, hw⟩, different⟩ |
      ⟨a, b, -, rfl, rfl, rfl⟩ | apart
    · exact ⟨true, equalWithin_list_self d r⟩
    · rw [equalWithin_opens hv hw different]
      split
      · refine exists_allEqual fun x hx y hy => ih e vs hv x hx ?_
        exact h.imp (·.opened hv hx) (·.opened hw hy)
      · exact ⟨false, rfl⟩
    · exact (h.elim (not_fits_zero a) (not_fits_zero b)).elim
    · exact ⟨_, equalWithin_apart apart d⟩

/-! ### Values found equal or unequal -/

def Alike (s : Store) (v w : Value) : Prop := s.equal? v w = some true

def Unlike (s : Store) (v w : Value) : Prop := s.equal? v w = some false

theorem Alike.symm (h : s.Alike v w) (hv : s.FloatFree v) (hw : s.FloatFree w) : s.Alike w v :=
  (equalWithin_comm _ w v hw hv).trans h

theorem Unlike.symm (h : s.Unlike v w) (hv : s.FloatFree v) (hw : s.FloatFree w) : s.Unlike w v :=
  (equalWithin_comm _ w v hw hv).trans h

theorem Alike.not_unlike (h : s.Alike v w) : ¬s.Unlike v w := by
  unfold Alike at h
  unfold Unlike
  rw [h]
  nofun

theorem Alike.trans (h : s.Alike v w) (h' : s.Alike w u) (hv : s.FloatFree v) (hw : s.FloatFree w)
    (hu : s.FloatFree u) : ¬s.Unlike v u :=
  equalWithin_trans hv hw hu h h'

theorem Fits.alike_or_unlike (h : s.Fits d v) (w : Value) : s.Alike v w ∨ s.Unlike v w := by
  obtain ⟨_ | _, found⟩ := exists_equalWithin (w := w) (.inl h.pairDepth)
  · exact .inr found
  · exact .inl found

theorem Alike.standard?_eq (h : s.Alike v w) (hv : s.FloatFree v) (hw : s.FloatFree w) :
    v.standard? = w.standard? := by
  rcases equalWithin_true_cases hv hw h with ⟨r, rfl, rfl⟩ | ⟨e, vs, ws, hv', hw', -⟩ | ⟨t, tv, tw⟩
  · rfl
  · rw [hv'.standard?_eq, hw'.standard?_eq]
  · rw [tv, tw]

/-- A value equal to one that is opened is the same list, or it is opened as well and the items are
equal. -/
theorem Alike.opened (h : s.Alike v w) (hv : s.FloatFree v) (hw : s.FloatFree w)
    (opens : s.Opens d v e vs) :
    (∃ r, v = .list r ∧ w = .list r) ∨ ∃ ws, s.Opens d w e ws ∧ List.Forall₂ s.Alike vs ws := by
  rcases equalWithin_true_cases hv hw h with same | ⟨f, vs', ws, hv', hw', items⟩ | ⟨t, tv, tw⟩
  · exact .inl same
  · obtain rfl := opens.items_eq hv'
    have le : f ≤ s.pairDepth := hv'.le
    exact .inr ⟨ws, opens.like hv' hw', items.imp fun x y found => equalWithin_mono found le⟩
  · rw [opens.standard?_eq] at tv
    cases tv

end Store

end Footprint
