import Footprint.Proofs.Comparison
import Footprint.Proofs.Iteration

set_option autoImplicit false

/-!
The least and the greatest of values without floats that are comparable in pairs, which need not be
plain data: lists may be in themselves. In one pass the first of those is found that no other value
beats.
-/

namespace Footprint

/-- A function that looks for an extreme value, with the operator and the order by which one value
beats another. -/
inductive Seeks : Builtin → CompareOp → Ordering → Prop
  | min : Seeks .min .lt .lt
  | max : Seeks .max .gt .gt

namespace Store

variable {s : Store} {b : Builtin} {op : CompareOp} {p : Ordering} {v w x : Value} {vs : List Value}

/-- Nothing among the values beats this one, and something beats each that stands before it. -/
def FirstExtreme (s : Store) (op : CompareOp) (vs : List Value) (x : Value) : Prop :=
  ∃ before after, vs = before ++ x :: after ∧ (∀ y ∈ vs, ¬s.Affirms op y x) ∧
    ∀ z ∈ before, ∃ y ∈ vs, s.Affirms op y z

/-! ### Beating -/

theorem exists_ranks_of_answers (h : s.Answers .lt v w) (hv : s.FloatFree v) (hw : s.FloatFree w) :
    ∃ q, s.Ranks .lt s.pairDepth v w (some q) := by
  obtain ⟨answer, found⟩ := h
  obtain ⟨_ | q, ranks, report⟩ := exists_ranks_of_verdict found (.head _) hv hw
  · cases report
  · exact ⟨q, ranks⟩

theorem beats_iff (seeks : Seeks b op p) (hv : s.FloatFree v) (hw : s.FloatFree w) :
    s.Affirms op v w ↔ s.Ranks .lt s.pairDepth v w (some p) := by
  constructor
  · intro affirms
    have asks : op ∈ CompareOp.orders := by cases seeks <;> decide
    obtain ⟨o, ranks, report⟩ := exists_ranks_of_verdict affirms asks hv hw
    have same : o = some p := by
      cases seeks <;> rcases o with _ | _ | _ | _ <;> first | rfl | cases report
    exact same ▸ ranks.ask hv hw .lt
  · intro ranks
    cases seeks with
    | min => exact (ranks.affirms_iff (.head _)).2 rfl
    | max => exact ((ranks.ask hv hw .gt).affirms_iff (by decide)).2 rfl

theorem beats_asymm (seeks : Seeks b op p) (hv : s.FloatFree v) (hw : s.FloatFree w)
    (h : s.Affirms op v w) : ¬s.Affirms op w v := by
  intro h'
  rw [beats_iff seeks hv hw] at h
  rw [beats_iff seeks hw hv] at h'
  cases seeks <;> cases (h.swap hv hw .lt).unique h'

/-- What beats a value beats all that do not beat it. -/
theorem beats_trans {u : Value} {q r : Ordering} (seeks : Seeks b op p) (hv : s.FloatFree v)
    (hw : s.FloatFree w) (hu : s.FloatFree u) (h : s.Affirms op v w) (h' : ¬s.Affirms op u w)
    (ranks : s.Ranks .lt s.pairDepth u w (some q)) (outer : s.Ranks .lt s.pairDepth v u (some r)) :
    s.Affirms op v u := by
  rw [beats_iff seeks hv hw] at h
  rw [beats_iff seeks hu hw] at h'
  rw [beats_iff seeks hv hu]
  cases seeks with
  | min =>
    have below : q.swap ≠ .gt := by
      intro gt
      cases q <;> cases gt
      exact h' ranks
    have same := h.trans (ranks.swap hu hw .lt) outer nofun below hv hw hu
    exact same ▸ outer
  | max =>
    have below : q ≠ .gt := by
      rintro rfl
      exact h' ranks
    have same := ranks.trans (h.swap hv hw .lt) (outer.swap hv hu .lt) below nofun hu hw hv
    cases q with
    | lt | eq =>
      cases r <;> cases same
      exact outer
    | gt => exact absurd rfl below

/-! ### One pass -/

theorem FirstExtreme.singleton (seeks : Seeks b op p) (hv : s.FloatFree v) :
    s.FirstExtreme op [v] v := by
  refine ⟨[], [], rfl, fun y hy => ?_, nofun⟩
  rw [List.mem_singleton.1 hy]
  exact fun self => beats_asymm seeks hv hv self self

/-- A further value can be compared with the best one so far. -/
theorem FirstExtreme.answers (h : s.FirstExtreme op vs x) (asks : op ∈ CompareOp.orders)
    (free : ∀ y ∈ vs ++ [v], s.FloatFree y) (pairs : (vs ++ [v]).Pairwise (s.Answers .lt)) :
    s.Answers op v x := by
  obtain ⟨before, after, rfl, -⟩ := h
  have hv : s.FloatFree v := free v (by simp)
  have hx : s.FloatFree x := free x (by simp)
  have earlier := (List.pairwise_append.1 pairs).2.2 x (by simp) v (.head _)
  obtain ⟨q, ranks⟩ := exists_ranks_of_answers earlier hx hv
  exact ⟨_, (ranks.swap hx hv op).verdict asks⟩

/-- A further value that beats the best one so far beats all values so far. -/
theorem FirstExtreme.beats (h : s.FirstExtreme op vs x) (seeks : Seeks b op p)
    (free : ∀ y ∈ vs ++ [v], s.FloatFree y) (pairs : (vs ++ [v]).Pairwise (s.Answers .lt))
    (better : s.Affirms op v x) : ∀ z ∈ vs, s.Affirms op v z := by
  obtain ⟨before, after, rfl, best, -⟩ := h
  obtain ⟨former, -, across⟩ := List.pairwise_append.1 pairs
  obtain ⟨-, behind, front⟩ := List.pairwise_append.1 former
  have behind := (List.pairwise_cons.1 behind).1
  have hv : s.FloatFree v := free v (by simp)
  have hx : s.FloatFree x := free x (by simp)
  intro z hz
  have hz' : s.FloatFree z := free z (List.mem_append_left _ hz)
  have place : z ∈ before ∨ z = x ∨ z ∈ after := by simpa using hz
  -- a value need not be comparable with itself, but with those at other places
  have ranked : z = x ∨ ∃ q, s.Ranks .lt s.pairDepth z x (some q) := by
    rcases place with earlier | same | later
    · exact .inr (exists_ranks_of_answers (front z earlier x (.head _)) hz' hx)
    · exact .inl same
    · obtain ⟨q, ranks⟩ := exists_ranks_of_answers (behind z later) hx hz'
      exact .inr ⟨q.swap, ranks.swap hx hz' .lt⟩
  rcases ranked with rfl | ⟨q, ranks⟩
  · exact better
  · obtain ⟨r, outer⟩ := exists_ranks_of_answers (across z hz v (.head _)) hz' hv
    exact beats_trans seeks hv hx hz' better (best z hz) ranks (outer.swap hz' hv .lt)

/-- A further value is the best one if it beats the best one so far, which otherwise stays so. -/
theorem FirstExtreme.next (h : s.FirstExtreme op vs x) (seeks : Seeks b op p)
    (free : ∀ y ∈ vs ++ [v], s.FloatFree y) (pairs : (vs ++ [v]).Pairwise (s.Answers .lt)) :
    (s.Affirms op v x → s.FirstExtreme op (vs ++ [v]) v) ∧
      (¬s.Affirms op v x → s.FirstExtreme op (vs ++ [v]) x) := by
  have hv : s.FloatFree v := free v (by simp)
  constructor
  · intro better
    have all := h.beats seeks free pairs better
    refine ⟨vs, [], rfl, fun y hy => ?_, fun z hz => ⟨v, by simp, all z hz⟩⟩
    rcases List.mem_append.1 hy with former | last
    · exact beats_asymm seeks hv (free y hy) (all y former)
    · rw [List.mem_singleton.1 last]
      exact fun self => beats_asymm seeks hv hv self self
  · intro worse
    obtain ⟨before, after, rfl, best, beaten⟩ := h
    refine ⟨before, after ++ [v], by simp, fun y hy => ?_, fun z hz => ?_⟩
    · rcases List.mem_append.1 hy with former | last
      · exact best y former
      · rwa [List.mem_singleton.1 last]
    · obtain ⟨y, hy, beats⟩ := beaten z hz
      exact ⟨y, List.mem_append_left _ hy, beats⟩

end Store

namespace Setting

variable {σ : Type} {env : Setting σ} {b : Builtin} {op : CompareOp} {o : Ordering} {m : Machine σ}
  {p : Position} {v x : Value} {vs : List Value}

open Footprint.Action

/-! ### Looking for an extreme -/

/-- A further value, if it beats the best one so far, and otherwise that one. -/
def better (op : CompareOp) (p : Position) (best v : Value) : Action σ Value :=
  return if ← attemptAt p (·.compare op v best) then v else best

/-- The first of the values that no other one beats. -/
def extremeAmong (env : Setting σ) (name : String) (op : CompareOp) (p : Position) :
    List Value → Action σ Value
  | [] => raiseAt (.extremeOfNothing name) p
  | x :: vs => env.goThrough (better op p) x (.values vs)

theorem extreme_of_yields {name : String} {args : List Value} {items : Items}
    (found : candidates name args p m = .done items m) (yields : items.Yields vs) :
    env.extreme name op args p m = env.extremeAmong name op p vs m := by
  unfold extreme
  rw [bind_apply, found]
  cases yields with
  | done none => simp only [none, extremeAmong]
  | more next others =>
    simp only [next, extremeAmong, goThrough_eq others]
    rfl

theorem extreme_of_elements (name : String) (h : m.store.elements? v = some vs) :
    env.extreme name op [v] p m = env.extremeAmong name op p vs m := by
  obtain ⟨items, iterate, yields⟩ := Store.exists_yields h
  refine extreme_of_yields ?_ yields
  simp only [candidates, readAt, observe, iterate, Except.mapError]

theorem extreme_of_arguments (name : String) (several : 2 ≤ vs.length) :
    env.extreme name op vs p m = env.extremeAmong name op p vs m := by
  refine extreme_of_yields ?_ (Items.yields_values vs)
  match vs, several with
  | _ :: _ :: _, _ => rfl

theorem callBuiltin_extreme (seeks : Seeks b op o) (args : List Value) :
    env.callBuiltin b args p = env.extreme b.name op args p := by
  cases seeks <;> rfl

theorem better_apply (answers : m.store.Answers op v x) (p : Position) :
    (m.store.Affirms op v x ∧ ∀ timer, better op p x v { m with timer } = .done v { m with timer }) ∨
    (¬m.store.Affirms op v x ∧
      ∀ timer, better op p x v { m with timer } = .done x { m with timer }) := by
  obtain ⟨answer, verdict⟩ := answers
  have run : (m.store.compare op v x).run = some (.ok answer) := by
    obtain ⟨r, run, report⟩ := Option.map_eq_some_iff.1 verdict
    cases r <;> cases report
    exact run
  have apply (timer : Timer) : better op p x v { m with timer } =
      .done (if answer then v else x) { m with timer } := by
    simp only [better, bind_apply, attemptAt, observe, run, Option.map_some, Except.mapError,
      pure_apply]
  cases answer with
  | true => exact .inl ⟨verdict, apply⟩
  | false =>
    refine .inr ⟨fun affirms => ?_, apply⟩
    cases verdict.symm.trans affirms

theorem timely_extremeAmong (seeks : Seeks b op o) (name : String) (nonempty : vs ≠ [])
    (free : ∀ y ∈ vs, m.store.FloatFree y) (pairs : vs.Pairwise (m.store.Answers .lt)) :
    ∃ x, m.store.FirstExtreme op vs x ∧ env.Timely m x (env.extremeAmong name op p vs m) := by
  obtain ⟨first, others, rfl⟩ := List.exists_cons_of_ne_nil nonempty
  have asks : op ∈ CompareOp.orders := by cases seeks <;> decide
  unfold extremeAmong
  refine timely_goThrough (P := fun taken => m.store.FirstExtreme op (first :: taken))
    (Items.yields_values others) (.singleton seeks (free first (.head _))) ?_
  intro before v after split best holds
  have all : first :: others = (first :: before ++ [v]) ++ after := by simp [split]
  have free : ∀ y ∈ first :: before ++ [v], m.store.FloatFree y :=
    fun y hy => free y (all ▸ List.mem_append_left after hy)
  have pairs := (List.pairwise_append.1 (all ▸ pairs)).1
  have next := holds.next seeks free pairs
  have answers := holds.answers asks free pairs
  rcases better_apply answers p with ⟨beats, run⟩ | ⟨worse, run⟩
  · exact ⟨v, next.1 beats, run⟩
  · exact ⟨best, next.2 worse, run⟩

/-- The extreme value among the elements of a value is the first that no other element beats, and
the same for several arguments as for a value with them as its elements. There is none among no
elements. -/
theorem extreme_first (seeks : Seeks b op o) (elements : m.store.elements? v = some vs) :
    (vs ≠ [] → (∀ y ∈ vs, m.store.FloatFree y) → vs.Pairwise (m.store.Answers .lt) →
      ∃ x, m.store.FirstExtreme op vs x ∧ env.Timely m x (env.callBuiltin b [v] p m)) ∧
    (2 ≤ vs.length → env.callBuiltin b vs p m = env.callBuiltin b [v] p m) ∧
    (vs = [] → env.callBuiltin b [v] p m =
      .failed (.exception "ValueError" s!"{b.name}() arg is an empty sequence" p) m) := by
  have one : env.callBuiltin b [v] p m = env.extremeAmong b.name op p vs m := by
    rw [callBuiltin_extreme seeks, extreme_of_elements b.name elements]
  rw [one]
  refine ⟨timely_extremeAmong seeks b.name, fun several => ?_, ?_⟩
  · rw [callBuiltin_extreme seeks, extreme_of_arguments b.name several]
  · rintro rfl
    rfl

/-- The least of `([2], [1, (True, "x")], [True, (1, "y")])`, without a deadline. -/
theorem extreme_first_mixed :
    let m : Machine Unit := { Machine.initial () with store := .mixed }
    let vs : List Value := [.list ⟨2⟩, .list ⟨0⟩, .list ⟨1⟩]
    Seeks .min .lt .lt ∧ m.store.elements? (.tuple 0 vs) = some vs ∧
      ∃ x, m.store.FirstExtreme .lt vs x ∧ Timely ⟨.default, .steady, none⟩ m x
        (callBuiltin ⟨.default, .steady, none⟩ .min [.tuple 0 vs] .start m) := by
  intro m vs
  have elements : m.store.elements? (.tuple 0 vs) = some vs := rfl
  obtain ⟨first, second, third⟩ := Store.mixed_plain
  have plain : ∀ y ∈ vs, m.store.Plain y := by
    simp only [vs, List.forall_mem_cons]
    exact ⟨third, first, second, nofun⟩
  have pairs : vs.Pairwise (m.store.Answers .lt) := by
    simp only [vs, List.pairwise_cons, List.forall_mem_cons]
    exact ⟨⟨⟨_, rfl⟩, ⟨_, rfl⟩, nofun⟩, ⟨⟨_, rfl⟩, nofun⟩, nofun, .nil⟩
  refine ⟨.min, elements, ?_⟩
  exact (extreme_first .min elements).1 nofun (fun y hy => (plain y hy).floatFree) pairs

end Setting

end Footprint
