import Footprint.Proofs.EqualValues

set_option autoImplicit false

/-!
The order of values without floats. Where a comparison ends it either finds an order, the same
whichever operator asks for it, or refuses the two values, also with their places exchanged. Equal
values are ordered alike, and orders that are not descending compose.
-/

namespace Footprint

/-- Orders that are not descending compose. -/
theorem compare_then {α : Type} {cmp : α → α → Ordering} [Std.TransCmp cmp] {a b c : α}
    (left : cmp a b ≠ .gt) (right : cmp b c ≠ .gt) : cmp a c = (cmp a b).then (cmp b c) := by
  cases first : cmp a b with
  | lt =>
    cases second : cmp b c with
    | lt => exact Std.TransCmp.lt_trans first second
    | eq => exact Std.TransCmp.lt_of_lt_of_eq first second
    | gt => exact absurd second right
  | eq => exact Std.TransCmp.congr_left first
  | gt => exact absurd first left

namespace Value

/-- The order of two texts or of two integers, as the standard values that stand for them. -/
def rankOf? (v w : Value) : Option Ordering :=
  match v.standard?, w.standard? with
  | some (.str a), some (.str b) => some (compare a b)
  | some (.int m), some (.int n) => some (compare m.toInt n.toInt)
  | _, _ => Option.none

variable {v w u : Value} {o o' : Ordering}

/-- Two values that have an order are both texts or both integers. -/
theorem rankOf?_cases (h : rankOf? v w = some o) :
    (∃ a b, v.standard? = some (.str a) ∧ w.standard? = some (.str b) ∧ compare a b = o) ∨
    ∃ m n, v.standard? = some (.int m) ∧ w.standard? = some (.int n) ∧
      compare m.toInt n.toInt = o := by
  unfold rankOf? at h
  split at h
  · next a b hv hw => exact .inl ⟨a, b, hv, hw, Option.some_inj.1 h⟩
  · next m n hv hw => exact .inr ⟨m, n, hv, hw, Option.some_inj.1 h⟩
  · cases h

theorem exists_standard? (h : rankOf? v w = some o) :
    (∃ t, v.standard? = some t) ∧ ∃ t, w.standard? = some t := by
  rcases rankOf?_cases h with ⟨a, b, hv, hw, -⟩ | ⟨m, n, hv, hw, -⟩ <;> exact ⟨⟨_, hv⟩, _, hw⟩

theorem rankOf?_swap (v w : Value) : rankOf? w v = (rankOf? v w).map .swap := by
  unfold rankOf?
  split
  · next a b hw hv => simp only [hv, hw, Option.map_some, ← Std.OrientedCmp.eq_swap]
  · next m n hw hv => simp only [hv, hw, Option.map_some, ← Std.OrientedCmp.eq_swap]
  · next texts integers =>
    split
    · next a b hv hw => exact absurd hv (texts b a hw)
    · next m n hv hw => exact absurd hv (integers n m hw)
    · rfl

theorem rankOf?_congr (same : v.standard? = w.standard?) (u : Value) :
    rankOf? v u = rankOf? w u := by
  unfold rankOf?
  rw [same]

theorem standard?_of_rankOf?_eq (h : rankOf? v w = some .eq) :
    ∃ t, v.standard? = some t ∧ w.standard? = some t := by
  rcases rankOf?_cases h with ⟨a, b, hv, hw, same⟩ | ⟨m, n, hv, hw, same⟩
  · obtain rfl := Std.LawfulEqCmp.eq_of_compare same
    exact ⟨_, hv, hw⟩
  · obtain rfl := Int64.toInt_inj.1 (Std.LawfulEqCmp.eq_of_compare same)
    exact ⟨_, hv, hw⟩

theorem eq_of_rankOf?_of_standard? (h : rankOf? v w = some o) (same : v.standard? = w.standard?) :
    o = .eq := by
  rcases rankOf?_cases h with ⟨a, b, hv, hw, rfl⟩ | ⟨m, n, hv, hw, rfl⟩
  · obtain rfl := Value.str.inj (Option.some_inj.1 (hv.symm.trans (same.trans hw)))
    exact Std.ReflCmp.compare_self
  · obtain rfl := Value.int.inj (Option.some_inj.1 (hv.symm.trans (same.trans hw)))
    exact Std.ReflCmp.compare_self

theorem rankOf?_trans (h : rankOf? v w = some o) (h' : rankOf? w u = some o') (left : o ≠ .gt)
    (right : o' ≠ .gt) : rankOf? v u = some (o.then o') := by
  rcases rankOf?_cases h with ⟨a, b, hv, hw, rfl⟩ | ⟨m, n, hv, hw, rfl⟩ <;>
    rcases rankOf?_cases h' with ⟨b', c, hw', hu, rfl⟩ | ⟨n', k, hw', hu, rfl⟩ <;>
    cases hw.symm.trans hw' <;>
    simp only [rankOf?, hv, hu, compare_then left right]

theorem atomOrder_eq (op : CompareOp) (hv : ∀ x, v ≠ .float x) (hw : ∀ x, w ≠ .float x) :
    atomOrder op v w =
      match rankOf? v w with
      | some o => .ok (some o)
      | .none => .error (.unordered op v.typeName w.typeName) := by
  cases v <;> cases w <;>
    first
      | rfl
      | exact absurd rfl (hv _)
      | exact absurd rfl (hw _)

theorem orderItemsWith_eq (op : CompareOp) (equal : Value → Value → Option Bool)
    (lists : ListRef → ListRef → Attempt (Option Ordering)) (vs ws : List Value) :
    orderItemsWith op equal lists vs ws = orderOfItems equal (orderWith op equal lists) vs ws := by
  induction vs generalizing ws with
  | nil => cases ws <;> rfl
  | cons v vs ih =>
    cases ws with
    | nil => rfl
    | cons w ws => simp only [orderItemsWith, orderOfItems, ih]

end Value

theorem orderOfItems_cons (equal : Value → Value → Option Bool)
    (order : Value → Value → Attempt (Option Ordering)) (v w : Value) (vs ws : List Value) :
    (orderOfItems equal order (v :: vs) (w :: ws)).run =
      match equal v w with
      | none => none
      | some true => (orderOfItems equal order vs ws).run
      | some false => (order v w).run := by
  rw [orderOfItems]
  rcases equal v w with _ | _ | _ <;> rfl

/-- What comparing two values has come to: their order, or a fault as they have none. -/
inductive Reports : Option Ordering → Except Fault (Option Ordering) → Prop
  | order (o : Ordering) : Reports (some o) (.ok (some o))
  | refusal {f : Fault} (kind : f.kind? = some "TypeError") : Reports none (.error f)

namespace Store

variable {s : Store} {op op' : CompareOp} {d e : Nat} {v w u : Value} {vs ws us : List Value}
  {o : Option Ordering}

/-! ### What order comes to -/

theorem orderWithin_opens (hv : s.Opens d v e vs) (hw : s.Opens d w e ws) :
    s.orderWithin op d v w = orderOfItems s.equal? (s.orderWithin op e) vs ws := by
  cases hv with
  | list =>
    cases hw
    rfl
  | tuple =>
    cases hw
    cases d <;> simp only [orderWithin, Value.orderWith, Value.orderItemsWith_eq]

theorem orderWithin_apart (h : Value.Apart v w) (op : CompareOp) (d : Nat) :
    s.orderWithin op d v w = ExceptT.mk (some (Value.atomOrder op v w)) := by
  cases d <;> cases v <;> cases w <;>
    first
      | rfl
      | exact absurd ⟨rfl, rfl⟩ (h.1 _ _)
      | exact absurd ⟨rfl, rfl⟩ (h.2 _ _ _ _)

/-- Comparing two values has ended, with their order or with none. -/
def Ranks (s : Store) (op : CompareOp) (d : Nat) (v w : Value) (o : Option Ordering) : Prop :=
  ∃ r, (s.orderWithin op d v w).run = some r ∧ Reports o r

/-- The order of two sequences is that of their first unequal items, if they have any. -/
inductive RanksItems (s : Store) (rank : Value → Value → Option Ordering → Prop) :
    List Value → List Value → Option Ordering → Prop
  | nil : RanksItems s rank [] [] (some .eq)
  | shorter {w : Value} {ws : List Value} : RanksItems s rank [] (w :: ws) (some .lt)
  | longer {v : Value} {vs : List Value} : RanksItems s rank (v :: vs) [] (some .gt)
  | skip {v w : Value} {vs ws : List Value} {o : Option Ordering} (alike : s.Alike v w)
      (others : RanksItems s rank vs ws o) : RanksItems s rank (v :: vs) (w :: ws) o
  | stop {v w : Value} {vs ws : List Value} {o : Option Ordering} (unlike : s.Unlike v w)
      (first : rank v w o) : RanksItems s rank (v :: vs) (w :: ws) o

theorem ranksItems_iff {order : Value → Value → Attempt (Option Ordering)} :
    (∃ r, (orderOfItems s.equal? order vs ws).run = some r ∧ Reports o r) ↔
      s.RanksItems (fun v w o => ∃ r, (order v w).run = some r ∧ Reports o r) vs ws o := by
  induction vs generalizing ws with
  | nil =>
    constructor
    · rintro ⟨r, run, reports⟩
      cases ws <;> cases run <;> cases reports
      · exact .nil
      · exact .shorter
    · intro h
      cases h <;> exact ⟨_, rfl, .order _⟩
  | cons v vs ih =>
    cases ws with
    | nil =>
      constructor
      · rintro ⟨r, run, reports⟩
        cases run
        cases reports
        exact .longer
      · intro h
        cases h
        exact ⟨_, rfl, .order _⟩
    | cons w ws =>
      rw [orderOfItems_cons]
      constructor
      · rcases found : s.equal? v w with _ | _ | _
        · rintro ⟨r, run, -⟩
          cases run
        · exact fun first => .stop found first
        · exact fun h => .skip found (ih.1 h)
      · intro h
        cases h with
        | skip alike others =>
          rw [alike]
          exact ih.2 others
        | stop unlike first =>
          rw [unlike]
          exact first

theorem ranks_opens (hv : s.Opens d v e vs) (hw : s.Opens d w e ws) :
    s.Ranks op d v w o ↔ s.RanksItems (s.Ranks op e) vs ws o := by
  unfold Ranks
  rw [orderWithin_opens hv hw, ranksItems_iff]

theorem reports_atomOrder (hv : s.FloatFree v) (hw : s.FloatFree w) :
    Reports o (Value.atomOrder op v w) ↔ o = Value.rankOf? v w := by
  rw [Value.atomOrder_eq op hv.ne_float hw.ne_float]
  cases Value.rankOf? v w with
  | none =>
    refine ⟨fun reports => ?_, ?_⟩
    · cases reports
      rfl
    · rintro rfl
      exact .refusal rfl
  | some p =>
    refine ⟨fun reports => ?_, ?_⟩
    · cases reports
      rfl
    · rintro rfl
      exact .order p

theorem ranks_apart (apart : Value.Apart v w) (hv : s.FloatFree v) (hw : s.FloatFree w) :
    s.Ranks op d v w o ↔ o = Value.rankOf? v w := by
  rw [Ranks, orderWithin_apart apart, ← reports_atomOrder hv hw]
  exact ⟨fun ⟨r, run, reports⟩ => Option.some_inj.1 run ▸ reports, fun reports => ⟨_, rfl, reports⟩⟩

/-- A comparison that has ended has opened both values or found them apart. -/
theorem Ranks.cases (h : s.Ranks op d v w o) :
    (∃ e vs ws, s.Opens d v e vs ∧ s.Opens d w e ws ∧ s.RanksItems (s.Ranks op e) vs ws o) ∨
      Value.Apart v w := by
  rcases s.pair_cases d v w with ⟨r, rfl, rfl⟩ | ⟨⟨e, vs, ws, hv, hw⟩, -⟩ |
    ⟨a, b, ne, rfl, rfl, rfl⟩ | apart
  · cases d with
    | zero =>
      obtain ⟨r, run, -⟩ := h
      cases run
    | succ d =>
      have opens := Opens.list (s := s) d r
      exact .inl ⟨d, _, _, opens, opens, (ranks_opens opens opens).1 h⟩
  · exact .inl ⟨e, vs, ws, hv, hw, (ranks_opens hv hw).1 h⟩
  · obtain ⟨r, run, -⟩ := h
    cases run
  · exact .inr apart

theorem exists_reports_items {order : Value → Value → Attempt (Option Ordering)}
    (items : ∀ v ∈ vs, ∀ w ∈ ws, ∀ r, (order v w).run = some r → ∃ o, Reports o r)
    {r : Except Fault (Option Ordering)}
    (run : (orderOfItems s.equal? order vs ws).run = some r) : ∃ o, Reports o r := by
  induction vs generalizing ws with
  | nil => cases ws <;> cases run <;> exact ⟨_, .order _⟩
  | cons v vs ih =>
    cases ws with
    | nil =>
      cases run
      exact ⟨_, .order _⟩
    | cons w ws =>
      rw [orderOfItems_cons] at run
      rcases found : s.equal? v w with _ | _ | _ <;> rw [found] at run
      · cases run
      · exact items v (.head _) w (.head _) r run
      · exact ih (fun v hv w hw => items v (.tail _ hv) w (.tail _ hw)) run

/-- A comparison of values without floats that has ended has found an order or refused them. -/
theorem exists_reports {r : Except Fault (Option Ordering)} (hv : s.FloatFree v)
    (hw : s.FloatFree w) (run : (s.orderWithin op d v w).run = some r) : ∃ o, Reports o r := by
  induction d, v using Opens.induct s generalizing w r with
  | step d v ih =>
    by_cases opens : ∃ e vs ws, s.Opens d v e vs ∧ s.Opens d w e ws
    · obtain ⟨e, vs, ws, hv', hw'⟩ := opens
      rw [orderWithin_opens hv' hw'] at run
      refine exists_reports_items (fun x hx y hy r run => ?_) run
      exact ih e vs hv' x hx (hv.opened hv' hx) (hw.opened hw' hy) run
    · rcases s.pair_cases d v w with ⟨q, rfl, rfl⟩ | ⟨opens', -⟩ | ⟨a, b, ne, rfl, rfl, rfl⟩ | apart
      · cases d with
        | zero => cases run
        | succ d => exact absurd ⟨d, _, _, .list d q, .list d q⟩ opens
      · exact absurd opens' opens
      · cases run
      · rw [orderWithin_apart apart] at run
        cases run
        exact ⟨_, (reports_atomOrder hv hw).2 rfl⟩

theorem exists_run_orderOfItems {order : Value → Value → Attempt (Option Ordering)}
    (equal : ∀ v ∈ vs, ∀ w ∈ ws, ∃ b, s.equal? v w = some b)
    (items : ∀ v ∈ vs, ∀ w ∈ ws, ∃ r, (order v w).run = some r) :
    ∃ r, (orderOfItems s.equal? order vs ws).run = some r := by
  induction vs generalizing ws with
  | nil => cases ws <;> exact ⟨_, rfl⟩
  | cons v vs ih =>
    cases ws with
    | nil => exact ⟨_, rfl⟩
    | cons w ws =>
      rw [orderOfItems_cons]
      obtain ⟨_ | _, found⟩ := equal v (.head _) w (.head _) <;> rw [found]
      · exact items v (.head _) w (.head _)
      · exact ih (fun v hv w hw => equal v (.tail _ hv) w (.tail _ hw))
          fun v hv w hw => items v (.tail _ hv) w (.tail _ hw)

/-- Comparing two values ends if one of them fits in the depth. -/
theorem exists_run (h : s.Fits d v ∨ s.Fits d w) (op : CompareOp) :
    ∃ r, (s.orderWithin op d v w).run = some r := by
  induction d, v using Opens.induct s generalizing w with
  | step d v ih =>
    rcases s.opened_cases d v w with ⟨f, vs, ws, hv, hw⟩ | ⟨a, b, rfl, rfl, rfl⟩ | apart
    · have items (x : Value) (hx : x ∈ vs) (y : Value) (hy : y ∈ ws) : s.Fits f x ∨ s.Fits f y :=
        h.imp (·.opened hv hx) (·.opened hw hy)
      rw [orderWithin_opens hv hw]
      refine exists_run_orderOfItems (fun x hx y hy => ?_)
        fun x hx y hy => ih f vs hv x hx (items x hx y hy)
      exact exists_equalWithin ((items x hx y hy).imp (·.pairDepth) (·.pairDepth))
    · exact (h.elim (not_fits_zero a) (not_fits_zero b)).elim
    · exact ⟨_, by rw [orderWithin_apart apart]; rfl⟩

theorem Fits.exists_ranks (h : s.Fits d v) (hv : s.FloatFree v) (hw : s.FloatFree w)
    (op : CompareOp) : ∃ o, s.Ranks op s.pairDepth v w o := by
  obtain ⟨r, run⟩ := exists_run (w := w) (.inl h.pairDepth) op
  obtain ⟨o, reports⟩ := exists_reports hv hw run
  exact ⟨o, r, run, reports⟩

/-! ### Laws -/

theorem Ranks.unique {p : Option Ordering} (h : s.Ranks op d v w o) (h' : s.Ranks op d v w p) :
    o = p := by
  obtain ⟨r, run, reports⟩ := h
  obtain ⟨r', run', reports'⟩ := h'
  obtain rfl := Option.some_inj.1 (run.symm.trans run')
  cases reports <;> cases reports' <;> rfl

theorem RanksItems.swap {rank rank' : Value → Value → Option Ordering → Prop}
    (h : s.RanksItems rank vs ws o) (hvs : ∀ v ∈ vs, s.FloatFree v) (hws : ∀ w ∈ ws, s.FloatFree w)
    (items : ∀ v ∈ vs, ∀ w ∈ ws, ∀ o, rank v w o → rank' w v (o.map .swap)) :
    s.RanksItems rank' ws vs (o.map .swap) := by
  induction h with
  | nil => exact .nil
  | shorter => exact .longer
  | longer => exact .shorter
  | skip alike _ ih =>
    refine .skip (alike.symm (hvs _ (.head _)) (hws _ (.head _))) (ih ?_ ?_ ?_)
    · exact fun v hv => hvs v (.tail _ hv)
    · exact fun w hw => hws w (.tail _ hw)
    · exact fun v hv w hw => items v (.tail _ hv) w (.tail _ hw)
  | stop unlike first =>
    refine .stop (unlike.symm (hvs _ (.head _)) (hws _ (.head _))) ?_
    exact items _ (.head _) _ (.head _) _ first

/-- With their places exchanged two values have the opposite order, whichever operator asks. -/
theorem Ranks.swap (h : s.Ranks op d v w o) (hv : s.FloatFree v) (hw : s.FloatFree w)
    (op' : CompareOp) : s.Ranks op' d w v (o.map .swap) := by
  induction d, v using Opens.induct s generalizing w o with
  | step d v ih =>
    rcases h.cases with ⟨e, vs, ws, hv', hw', items⟩ | apart
    · have hvs (x) (hx : x ∈ vs) := hv.opened hv' hx
      have hws (y) (hy : y ∈ ws) := hw.opened hw' hy
      refine (ranks_opens hw' hv').2 (items.swap hvs hws fun x hx y hy o first => ?_)
      exact ih e vs hv' x hx first (hvs x hx) (hws y hy)
    · rw [ranks_apart apart hv hw] at h
      rw [ranks_apart apart.symm hw hv, h, Value.rankOf?_swap v w]

/-- The operator that asks has no say in the order. -/
theorem Ranks.ask (h : s.Ranks op d v w o) (hv : s.FloatFree v) (hw : s.FloatFree w)
    (op' : CompareOp) : s.Ranks op' d v w o := by
  have back := (h.swap hv hw op').swap hw hv op'
  rcases o with _ | _ | _ | _ <;> exact back

/-- Sequences that come out level are equal item by item, if no unequal items do. -/
theorem RanksItems.alike {rank : Value → Value → Option Ordering → Prop}
    (h : s.RanksItems rank vs ws (some .eq))
    (items : ∀ v ∈ vs, ∀ w ∈ ws, rank v w (some .eq) → ¬s.Unlike v w) :
    List.Forall₂ s.Alike vs ws := by
  generalize same : some Ordering.eq = o at h
  induction h with
  | nil => exact .nil
  | shorter => cases same
  | longer => cases same
  | skip alike _ ih =>
    exact .cons alike (ih (fun v hv w hw => items v (.tail _ hv) w (.tail _ hw)) same)
  | stop unlike first =>
    subst same
    exact absurd unlike (items _ (.head _) _ (.head _) first)

theorem Opens.not_unlike (hv : s.Opens d v e vs) (hw : s.Opens d w e ws)
    (items : List.Forall₂ s.Alike vs ws) : ¬s.Unlike v w := by
  by_cases same : ∃ r, v = .list r ∧ w = .list r
  · obtain ⟨r, rfl, rfl⟩ := same
    unfold Unlike equal?
    rw [equalWithin_list_self]
    nofun
  · obtain ⟨f, le, hv, hw⟩ := hv.inPairDepth hw
    unfold Unlike equal?
    rw [equalWithin_opens hv hw fun r both => same ⟨r, both⟩, if_pos items.length_eq]
    refine allEqual_ne_false (items.imp fun x y alike unlike => ?_)
    exact alike.not_unlike (equalWithin_mono unlike le)

/-- Values that come out level are not unequal. -/
theorem Ranks.not_unlike (h : s.Ranks op d v w (some .eq)) (hv : s.FloatFree v)
    (hw : s.FloatFree w) : ¬s.Unlike v w := by
  induction d, v using Opens.induct s generalizing w with
  | step d v ih =>
    rcases h.cases with ⟨e, vs, ws, hv', hw', items⟩ | apart
    · refine hv'.not_unlike hw' (items.alike fun x hx y hy first => ?_)
      exact ih e vs hv' x hx first (hv.opened hv' hx) (hw.opened hw' hy)
    · rw [ranks_apart apart hv hw] at h
      have same := Value.standard?_of_rankOf?_eq h.symm
      unfold Unlike equal?
      rw [equalWithin_apart apart, (Value.atomsEqual_iff hv.ne_float hw.ne_float apart).2 same]
      nofun

/-- Unequal values that do not descend ascend. -/
theorem Ranks.ascends {p : Ordering} (h : s.Ranks op d v w (some p)) (not_gt : p ≠ .gt)
    (unlike : s.Unlike v w) (hv : s.FloatFree v) (hw : s.FloatFree w) : p = .lt := by
  cases p with
  | lt => rfl
  | eq => exact absurd unlike (h.not_unlike hv hw)
  | gt => exact absurd rfl not_gt

/-- Values equal to each other come out level, if they have an order. -/
theorem Ranks.level {p : Ordering} (h : s.Ranks op d v w (some p)) (hv : s.FloatFree v)
    (hw : s.FloatFree w) (alike : s.Alike v w) : p = .eq := by
  rcases h.cases with ⟨e, vs, ws, hv', hw', items⟩ | apart
  · rcases alike.opened hv hw hv' with ⟨r, rfl, rfl⟩ | ⟨ws', hw'', alike⟩
    · -- compared with itself a list is on both sides of its order
      have back := Option.some_inj.1 (h.unique (h.swap hv hw op))
      cases p <;> cases back
      rfl
    · obtain rfl := hw'.items_eq hw''
      clear hv' hw' hw''
      generalize found : some p = o at items
      induction items with
      | nil => exact Option.some_inj.1 found
      | shorter => cases alike
      | longer => cases alike
      | skip _ _ ih =>
        cases alike with
        | cons _ others => exact ih others found
      | stop unlike =>
        cases alike with
        | cons first => exact absurd unlike first.not_unlike
  · rw [ranks_apart apart hv hw] at h
    exact Value.eq_of_rankOf?_of_standard? h.symm (alike.standard?_eq hv hw)

theorem RanksItems.congr {rank : Value → Value → Option Ordering → Prop} {p : Option Ordering}
    (alike : List.Forall₂ s.Alike vs ws) (h : s.RanksItems rank vs us o)
    (h' : s.RanksItems rank ws us p) (hvs : ∀ v ∈ vs, s.FloatFree v)
    (hws : ∀ w ∈ ws, s.FloatFree w) (hus : ∀ u ∈ us, s.FloatFree u)
    (items : ∀ v ∈ vs, ∀ w ∈ ws, ∀ u ∈ us, ∀ o p, s.Alike v w → rank v u o → rank w u p → o = p) :
    o = p := by
  induction alike generalizing us with
  | nil => cases h <;> cases h' <;> rfl
  | @cons v w vs ws first _ ih =>
    cases us with
    | nil =>
      cases h
      cases h'
      rfl
    | cons u us =>
      have hv := hvs v (.head _)
      have hw := hws w (.head _)
      have hu := hus u (.head _)
      cases h with
      | skip same others =>
        cases h' with
        | skip _ others' =>
          refine ih others others' (fun v hv => hvs v (.tail _ hv)) (fun w hw => hws w (.tail _ hw))
            (fun u hu => hus u (.tail _ hu)) fun v hv w hw u hu => ?_
          exact items v (.tail _ hv) w (.tail _ hw) u (.tail _ hu)
        | stop unlike => exact absurd unlike ((first.symm hv hw).trans same hw hv hu)
      | stop unlike rank =>
        cases h' with
        | skip same => exact absurd unlike (first.trans same hv hw hu)
        | stop _ rank' => exact items v (.head _) w (.head _) u (.head _) o p first rank rank'

/-- Values equal to each other are ordered alike with every third. -/
theorem Ranks.congr {p : Option Ordering} (alike : s.Alike v w) (h : s.Ranks op d v u o)
    (h' : s.Ranks op d w u p) (hv : s.FloatFree v) (hw : s.FloatFree w) (hu : s.FloatFree u) :
    o = p := by
  induction d, v using Opens.induct s generalizing w u o p with
  | step d v ih =>
    rcases h.cases with ⟨e, vs, us, hv', hu', items⟩ | apart
    · rcases alike.opened hv hw hv' with ⟨r, rfl, rfl⟩ | ⟨ws, hw', alike⟩
      · exact h.unique h'
      · refine items.congr alike ((ranks_opens hw' hu').1 h') (fun _ => hv.opened hv')
          (fun _ => hw.opened hw') (fun _ => hu.opened hu') ?_
        intro x hx y hy z hz o p alike first second
        exact ih e vs hv' x hx alike first second (hv.opened hv' hx) (hw.opened hw' hy)
          (hu.opened hu' hz)
    · rcases h'.cases with ⟨e, ws, us, hw', hu', -⟩ | apart'
      · rcases (alike.symm hv hw).opened hw hv hw' with ⟨r, rfl, rfl⟩ | ⟨vs, hv', -⟩
        · exact h.unique h'
        · exact absurd apart (hv'.not_apart hu')
      · rw [ranks_apart apart hv hu] at h
        rw [ranks_apart apart' hw hu] at h'
        rw [h, h', Value.rankOf?_congr (alike.standard?_eq hv hw)]

theorem Ranks.congr_right {p : Option Ordering} (alike : s.Alike w u) (h : s.Ranks op d v w o)
    (h' : s.Ranks op d v u p) (hv : s.FloatFree v) (hw : s.FloatFree w) (hu : s.FloatFree u) :
    o = p := by
  have same := (h.swap hv hw op).congr alike (h'.swap hv hu op) hw hu hv
  rcases o with _ | _ | _ | _ <;> rcases p with _ | _ | _ | _ <;> cases same <;> rfl

theorem RanksItems.trans {p q : Ordering} (h : s.RanksItems (s.Ranks op e) vs ws (some p))
    (h' : s.RanksItems (s.Ranks op e) ws us (some q)) (h'' : s.RanksItems (s.Ranks op e) vs us o)
    (left : p ≠ .gt) (right : q ≠ .gt) (hvs : ∀ v ∈ vs, s.FloatFree v)
    (hws : ∀ w ∈ ws, s.FloatFree w) (hus : ∀ u ∈ us, s.FloatFree u)
    (items : ∀ v ∈ vs, ∀ w ∈ ws, ∀ u ∈ us, ∀ o, s.Ranks op e v w (some p) →
      s.Ranks op e w u (some q) → s.Ranks op e v u o → o = some (p.then q)) :
    o = some (p.then q) := by
  generalize found : some p = r at h
  induction h generalizing us with
  | nil =>
    cases found
    cases h' <;> cases h'' <;> rfl
  | shorter =>
    cases found
    cases us with
    | nil =>
      cases h'
      exact absurd rfl right
    | cons u us =>
      cases h''
      rfl
  | longer =>
    cases found
    exact absurd rfl left
  | @skip v w vs ws _ alike others ih =>
    have hv := hvs v (.head _)
    have hw := hws w (.head _)
    cases h' with
    | longer => exact absurd rfl right
    | @skip _ u _ us _ alike' others' =>
      have hu := hus u (.head _)
      cases h'' with
      | skip _ others'' =>
        refine ih others' others'' (fun v hv => hvs v (.tail _ hv)) (fun w hw => hws w (.tail _ hw))
          (fun u hu => hus u (.tail _ hu)) (fun v hv w hw u hu => ?_) found
        exact items v (.tail _ hv) w (.tail _ hw) u (.tail _ hu)
      | stop unlike => exact absurd unlike (alike.trans alike' hv hw hu)
    | @stop _ u _ us _ unlike second =>
      have hu := hus u (.head _)
      cases h'' with
      | skip same => exact absurd unlike ((alike.symm hv hw).trans same hw hv hu)
      | stop _ third =>
        -- only the second pair is unequal, and the outer one is ordered as it is
        obtain rfl := second.ascends right unlike hw hu
        rw [third.congr alike second hv hw hu]
        cases p <;> first | rfl | exact absurd rfl left
  | @stop v w vs ws _ unlike first =>
    subst found
    have hv := hvs v (.head _)
    have hw := hws w (.head _)
    obtain rfl := first.ascends left unlike hv hw
    cases h' with
    | longer => exact absurd rfl right
    | @skip _ u _ us _ alike others =>
      have hu := hus u (.head _)
      cases h'' with
      | skip same =>
        exact absurd unlike (same.trans (alike.symm hw hu) hv hu hw)
      | stop _ third =>
        exact (first.congr_right alike third hv hw hu).symm
    | @stop _ u _ us _ unlike' second =>
      have hu := hus u (.head _)
      cases h'' with
      | skip same =>
        -- the outer values would be equal, with the one between them above and below
        obtain rfl := second.ascends right unlike' hw hu
        cases first.congr same (second.swap hw hu op) hv hu hw
      | stop _ third =>
        exact items v (.head _) w (.head _) u (.head _) o first second third

/-- Orders that are not descending compose, where the outer values have been compared. -/
theorem Ranks.trans {p q : Ordering} (h : s.Ranks op d v w (some p))
    (h' : s.Ranks op d w u (some q)) (h'' : s.Ranks op d v u o) (left : p ≠ .gt) (right : q ≠ .gt)
    (hv : s.FloatFree v) (hw : s.FloatFree w) (hu : s.FloatFree u) : o = some (p.then q) := by
  induction d, v using Opens.induct s generalizing w u o with
  | step d v ih =>
    rcases h.cases with ⟨e, vs, ws, hv', hw', items⟩ | apart
    · rcases h'.cases with ⟨f, ws', us, hw'', hu', items'⟩ | apart'
      · obtain rfl := hw'.depth_eq hw''
        obtain rfl := hw'.items_eq hw''
        refine items.trans items' ((ranks_opens hv' hu').1 h'') left right (fun _ => hv.opened hv')
          (fun _ => hw.opened hw') (fun _ => hu.opened hu') ?_
        intro x hx y hy z hz o first second third
        exact ih f vs hv' x hx first second third (hv.opened hv' hx) (hw.opened hw' hy)
          (hu.opened hu' hz)
      · rw [ranks_apart apart' hw hu] at h'
        obtain ⟨⟨t, standard⟩, -⟩ := Value.exists_standard? h'.symm
        rw [hw'.standard?_eq] at standard
        cases standard
    · rw [ranks_apart apart hv hw] at h
      obtain ⟨⟨t, standard⟩, t', standard'⟩ := Value.exists_standard? h.symm
      rw [ranks_apart (Value.apart_of_standard? standard' u) hw hu] at h'
      rw [ranks_apart (Value.apart_of_standard? standard u) hv hu] at h''
      rw [h'', Value.rankOf?_trans h.symm h'.symm left right]

end Store

end Footprint
