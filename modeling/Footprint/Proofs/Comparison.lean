import Footprint.Proofs.OrderedValues

set_option autoImplicit false

/-!
Comparisons of plain data, by which is meant what nested lists and tuples hold of texts, integers,
booleans and `None`. Equality is an equivalence that the order respects. Two values either have an
order, whichever operator asks and on whichever side they stand, or are refused by all of them.
-/

namespace Footprint

namespace CompareOp

/-- The operators that ask for an order. -/
def orders : List CompareOp := [.lt, .gt, .le, .ge]

/-- The operator that asks for an order is content with the one that is found. -/
def accepts : CompareOp → Ordering → Bool
  | .lt, o => o == .lt
  | .gt, o => o == .gt
  | .le, o => o != .gt
  | .ge, o => o != .lt
  | _, _ => false

/-- What an operator that asks for an order reports of what has been found. -/
def report (op : CompareOp) : Option Ordering → Except (Option String) Bool
  | some o => .ok (op.accepts o)
  | none => .error (some "TypeError")

end CompareOp

namespace Store

variable {s : Store} {op : CompareOp} {d : Nat} {a b c v w : Value} {o : Option Ordering}

/-! ### Verdicts -/

/-- What a comparison comes to: its answer, or the kind of exception that it raises; nothing if it
does not end. -/
def verdict (s : Store) (op : CompareOp) (v w : Value) : Option (Except (Option String) Bool) :=
  (s.compare op v w).run.map (Except.mapError Fault.kind?)

def Affirms (s : Store) (op : CompareOp) (v w : Value) : Prop := s.verdict op v w = some (.ok true)

def Answers (s : Store) (op : CompareOp) (v w : Value) : Prop :=
  ∃ answer, s.verdict op v w = some (.ok answer)

def Refuses (s : Store) (op : CompareOp) (v w : Value) : Prop :=
  s.verdict op v w = some (.error (some "TypeError"))

theorem verdict_eq (s : Store) (v w : Value) :
    s.verdict .eq v w = (s.equal? v w).map .ok := by
  unfold verdict compare
  cases s.equal? v w <;> rfl

theorem verdict_notEq (s : Store) (v w : Value) :
    s.verdict .notEq v w = (s.equal? v w).map fun b => .ok !b := by
  unfold verdict compare
  cases s.equal? v w <;> rfl

theorem affirms_eq_iff : s.Affirms .eq v w ↔ s.Alike v w := by
  unfold Affirms Alike
  rw [verdict_eq]
  cases s.equal? v w <;> simp

/-- The operators that ask for an order report on the one that is found. -/
theorem verdict_eq_order (asks : op ∈ CompareOp.orders) :
    s.verdict op v w =
      (s.order op v w).run.map fun r => (r.map (·.any op.accepts)).mapError Fault.kind? := by
  have bind (f : Option Ordering → Bool) : (do return f (← s.order op v w) : Attempt Bool).run =
      (s.order op v w).run.map (·.map f) := by
    rw [ExceptT.run_bind]
    rcases (s.order op v w).run with _ | _ | _ <;> rfl
  have verdict (f : Option Ordering → Bool)
      (h : s.compare op v w = do return f (← s.order op v w)) :
      s.verdict op v w = (s.order op v w).run.map fun r => (r.map f).mapError Fault.kind? := by
    rw [Store.verdict, h, bind, Option.map_map]
    rfl
  simp only [CompareOp.orders, List.mem_cons, List.not_mem_nil, or_false] at asks
  rcases asks with rfl | rfl | rfl | rfl <;> exact verdict _ rfl

theorem Ranks.verdict (h : s.Ranks op s.pairDepth v w o) (asks : op ∈ CompareOp.orders) :
    s.verdict op v w = some (op.report o) := by
  obtain ⟨r, run, reports⟩ := h
  rw [verdict_eq_order asks, order, run]
  cases reports with
  | order => rfl
  | refusal kind => exact congrArg (fun k => some (Except.error k)) kind

theorem exists_ranks_of_verdict {x : Except (Option String) Bool} (h : s.verdict op v w = some x)
    (asks : op ∈ CompareOp.orders) (hv : s.FloatFree v) (hw : s.FloatFree w) :
    ∃ o, s.Ranks op s.pairDepth v w o ∧ x = op.report o := by
  have found := h
  rw [verdict_eq_order asks] at found
  obtain ⟨r, run, -⟩ := Option.map_eq_some_iff.1 found
  obtain ⟨o, reports⟩ := exists_reports hv hw run
  have ranks : s.Ranks op s.pairDepth v w o := ⟨r, run, reports⟩
  exact ⟨o, ranks, Option.some_inj.1 (h.symm.trans (ranks.verdict asks))⟩

/-! ### Plain data -/

/-- What nested lists and tuples hold of texts, integers, booleans and `None`; no list is in
itself. -/
inductive Plain (s : Store) : Value → Prop
  | none : Plain s .none
  | bool (b : Bool) : Plain s (.bool b)
  | int (n : Int64) : Plain s (.int n)
  | str (t : String) : Plain s (.str t)
  | list {r : ListRef} (items : ∀ v ∈ (s.items r).toList, Plain s v) : Plain s (.list r)
  | tuple {id : Nat} {vs : List Value} (items : ∀ v ∈ vs, Plain s v) : Plain s (.tuple id vs)

theorem Plain.floatFree (h : s.Plain v) : s.FloatFree v := by
  intro x path
  generalize float : Value.float x = w at path
  induction h with
  | list _ ih | tuple _ ih =>
    rcases path.cases_head with rfl | ⟨item, member, path⟩
    · cases float
    · exact ih item member path
  | _ =>
    rcases path.cases_head with rfl | ⟨item, member, -⟩
    · cases float
    · cases member

theorem Plain.exists_fits (h : s.Plain v) : ∃ d, s.Fits d v := by
  induction h with
  | @list r _ ih =>
    obtain ⟨d, fits⟩ := exists_fits_all ih
    exact ⟨d + 1, .items (.list d r) fits⟩
  | @tuple id vs _ ih =>
    obtain ⟨d, fits⟩ := exists_fits_all ih
    exact ⟨d, .items (.tuple d id vs) fits⟩
  | _ => exact ⟨0, .leaf nofun nofun⟩

theorem Plain.alike_or_unlike (h : s.Plain v) (w : Value) : s.Alike v w ∨ s.Unlike v w :=
  h.exists_fits.elim fun _ fits => fits.alike_or_unlike w

/-- Plain data have an order that all operators find, or none. -/
theorem Plain.exists_ranks (hv : s.Plain v) (hw : s.Plain w) :
    ∃ o, ∀ op, s.Ranks op s.pairDepth v w o := by
  obtain ⟨d, fits⟩ := hv.exists_fits
  obtain ⟨o, ranks⟩ := fits.exists_ranks hv.floatFree hw.floatFree .lt
  exact ⟨o, ranks.ask hv.floatFree hw.floatFree⟩

theorem Plain.alike_self (h : s.Plain v) : s.Alike v v := by
  unfold Alike equal?
  induction h with
  | list => exact equalWithin_list_self _ _
  | tuple _ ih =>
    rw [equalWithin_tuples, if_pos rfl, allEqual_eq_true rfl]
    exact List.forall₂_same.2 ih
  | _ =>
    rw [equalWithin_apart (Value.apart_of_standard? rfl _)]
    simp [Value.atomsEqual, Value.isNumber, Value.isSame, Value.numbersEqual]

theorem Plain.alike_trans (ha : s.Plain a) (hb : s.Plain b) (hc : s.Plain c) (left : s.Alike a b)
    (right : s.Alike b c) : s.Alike a c :=
  (ha.alike_or_unlike c).resolve_right (left.trans right ha.floatFree hb.floatFree hc.floatFree)

/-- Equal plain data are equal to the same values. -/
theorem Plain.equal?_congr (ha : s.Plain a) (hb : s.Plain b) (hc : s.Plain c)
    (same : s.Alike a b) : s.equal? a c = s.equal? b c := by
  have back := same.symm ha.floatFree hb.floatFree
  rcases ha.alike_or_unlike c with alike | unlike
  · exact Eq.trans alike (Eq.symm (hb.alike_trans ha hc back alike))
  · rcases hb.alike_or_unlike c with alike | unlike'
    · exact absurd unlike (ha.alike_trans hb hc same alike).not_unlike
    · exact Eq.trans unlike (Eq.symm unlike')

theorem Plain.equal?_comm (ha : s.Plain a) (hb : s.Plain b) : s.equal? a b = s.equal? b a :=
  equalWithin_comm _ a b ha.floatFree hb.floatFree

/-! ### Coherence -/

/-- What comparing `a`, `b` and `c` in pairs comes to hangs together. -/
structure Coherent (s : Store) (a b c : Value) : Prop where
  equality_answers : s.Answers .eq a b
  refl : s.Affirms .eq a a
  symm : s.Affirms .eq a b → s.Affirms .eq b a
  trans : s.Affirms .eq a b → s.Affirms .eq b c → s.Affirms .eq a c
  /-- Either all operators find an order, on both sides, or all refuse the two values. -/
  all_or_none :
    (∀ op ∈ CompareOp.orders, s.Answers op a b ∧ s.Answers op b a) ∨
      ∀ op ∈ CompareOp.orders, s.Refuses op a b ∧ s.Refuses op b a
  exactly_one : s.Answers .lt a b →
    s.Affirms .lt a b ∧ ¬s.Affirms .eq a b ∧ ¬s.Affirms .gt a b ∨
    ¬s.Affirms .lt a b ∧ s.Affirms .eq a b ∧ ¬s.Affirms .gt a b ∨
    ¬s.Affirms .lt a b ∧ ¬s.Affirms .eq a b ∧ s.Affirms .gt a b
  le_iff : s.Answers .lt a b → (s.Affirms .le a b ↔ s.Affirms .lt a b ∨ s.Affirms .eq a b)
  ge_eq_le : s.verdict .ge a b = s.verdict .le b a
  congr : s.Affirms .eq a b → ∀ op ∈ .eq :: .notEq :: CompareOp.orders,
    s.verdict op a c = s.verdict op b c ∧ s.verdict op c a = s.verdict op c b
  lt_trans : s.Affirms .lt a b → s.Affirms .lt b c → s.Affirms .lt a c

/-- Two plain values that have an order are equal just when they come out level. -/
theorem Plain.affirms_eq_iff_level (ha : s.Plain a) (hb : s.Plain b) {p : Ordering}
    (ranks : s.Ranks op s.pairDepth a b (some p)) : s.Affirms .eq a b ↔ p = .eq := by
  rw [affirms_eq_iff]
  constructor
  · exact ranks.level ha.floatFree hb.floatFree
  · rintro rfl
    exact (ha.alike_or_unlike b).resolve_right (ranks.not_unlike ha.floatFree hb.floatFree)

theorem Ranks.affirms_iff {p : Ordering} (h : s.Ranks op s.pairDepth v w (some p))
    (asks : op ∈ CompareOp.orders) : s.Affirms op v w ↔ op.accepts p = true := by
  unfold Affirms
  rw [h.verdict asks]
  simp [CompareOp.report]

theorem Ranks.eq_lt_of_affirms (h : s.Ranks .lt s.pairDepth v w o) (affirms : s.Affirms .lt v w) :
    o = some .lt := by
  unfold Affirms at affirms
  rw [h.verdict (.head _)] at affirms
  rcases o with _ | _ | _ | _ <;> cases affirms
  rfl

/-- Comparisons of plain data are coherent. -/
theorem Plain.coherent (ha : s.Plain a) (hb : s.Plain b) (hc : s.Plain c) : s.Coherent a b c := by
  obtain ⟨o, ranks⟩ := ha.exists_ranks hb
  have back (op) := (ranks op).swap ha.floatFree hb.floatFree op
  have ordered (h : s.Answers .lt a b) : ∃ p, o = some p := by
    obtain ⟨answer, h⟩ := h
    rw [(ranks .lt).verdict (.head _)] at h
    cases o with
    | none => cases h
    | some p => exact ⟨p, rfl⟩
  constructor
  case equality_answers =>
    rcases ha.alike_or_unlike b with found | found <;>
      exact ⟨_, (verdict_eq s a b).trans (congrArg (Option.map Except.ok) found)⟩
  case refl => exact affirms_eq_iff.2 ha.alike_self
  case symm => simpa only [affirms_eq_iff] using fun same => same.symm ha.floatFree hb.floatFree
  case trans => simpa only [affirms_eq_iff] using ha.alike_trans hb hc
  case all_or_none =>
    cases o with
    | none => exact .inr fun op asks => ⟨(ranks op).verdict asks, (back op).verdict asks⟩
    | some p => exact .inl fun op asks => ⟨⟨_, (ranks op).verdict asks⟩, _, (back op).verdict asks⟩
  case exactly_one =>
    intro answers
    obtain ⟨p, rfl⟩ := ordered answers
    rw [ha.affirms_eq_iff_level hb (ranks .eq), (ranks .lt).affirms_iff (by decide),
      (ranks .gt).affirms_iff (by decide)]
    cases p <;> decide
  case le_iff =>
    intro answers
    obtain ⟨p, rfl⟩ := ordered answers
    rw [ha.affirms_eq_iff_level hb (ranks .eq), (ranks .lt).affirms_iff (by decide),
      (ranks .le).affirms_iff (by decide)]
    cases p <;> decide
  case ge_eq_le =>
    rw [(ranks .ge).verdict (by decide), (back .le).verdict (by decide)]
    rcases o with _ | _ | _ | _ <;> rfl
  case congr =>
    intro same op asks
    rw [affirms_eq_iff] at same
    have equal := ha.equal?_congr hb hc same
    obtain ⟨p, first⟩ := ha.exists_ranks hc
    obtain ⟨q, second⟩ := hb.exists_ranks hc
    obtain rfl := (first .lt).congr same (second .lt) ha.floatFree hb.floatFree hc.floatFree
    have first' (op) := (first op).swap ha.floatFree hc.floatFree op
    have second' (op) := (second op).swap hb.floatFree hc.floatFree op
    rcases List.mem_cons.1 asks with rfl | asks
    · simp only [verdict_eq, hc.equal?_comm ha, hc.equal?_comm hb, equal, and_self]
    · rcases List.mem_cons.1 asks with rfl | asks
      · simp only [verdict_notEq, hc.equal?_comm ha, hc.equal?_comm hb, equal, and_self]
      · rw [(first op).verdict asks, (second op).verdict asks, (first' op).verdict asks,
          (second' op).verdict asks]
        exact ⟨rfl, rfl⟩
  case lt_trans =>
    intro left right
    obtain ⟨p, second⟩ := hb.exists_ranks hc
    obtain ⟨q, third⟩ := ha.exists_ranks hc
    obtain rfl := (ranks .lt).eq_lt_of_affirms left
    obtain rfl := (second .lt).eq_lt_of_affirms right
    obtain rfl := (ranks .lt).trans (second .lt) (third .lt) nofun nofun ha.floatFree hb.floatFree
      hc.floatFree
    exact ((third .lt).affirms_iff (.head _)).2 rfl

/-- A store of `[1, (True, "x")]`, `[True, (1, "y")]` and `[2]`. -/
def mixed : Store :=
  { empty with lists := #[#[.int 1, .tuple 0 [.bool true, .str "x"]],
    #[.bool true, .tuple 1 [.int 1, .str "y"]], #[.int 2]] }

theorem mixed_plain : mixed.Plain (.list ⟨0⟩) ∧ mixed.Plain (.list ⟨1⟩) ∧
    mixed.Plain (.list ⟨2⟩) := by
  have pair {v w : Value} (hv : mixed.Plain v) (hw : mixed.Plain w) : ∀ x ∈ [v, w], mixed.Plain x :=
    List.forall_mem_cons.2 ⟨hv, List.forall_mem_singleton.2 hw⟩
  refine ⟨.list ?_, .list ?_, .list ?_⟩
  · exact pair (.int 1) (.tuple (pair (.bool true) (.str "x")))
  · exact pair (.bool true) (.tuple (pair (.int 1) (.str "y")))
  · exact List.forall_mem_singleton.2 (.int 2)

/-- Ordered by their last items, as the first ones are equal, and by the first ones. -/
theorem mixed_coherent : mixed.Plain (.list ⟨0⟩) ∧ mixed.Plain (.list ⟨1⟩) ∧
    mixed.Plain (.list ⟨2⟩) ∧ mixed.Affirms .lt (.list ⟨0⟩) (.list ⟨2⟩) := by
  obtain ⟨first, second, third⟩ := mixed_plain
  have coherent := Plain.coherent first second third
  exact ⟨first, second, third, coherent.lt_trans (by rfl) (by rfl)⟩

end Store

end Footprint
