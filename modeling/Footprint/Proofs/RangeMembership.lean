import Footprint.Proofs.ListChanges

set_option autoImplicit false

/-!
Membership in a progression and in the list of its integers. The list is gone through, the
progression is not: whether an integer is in it is a matter of arithmetic. The two decide alike for
all values but floats, which are equal to integers and in no progression.
-/

namespace Footprint

variable {r : Range} {v : Value}

theorem Value.atomsEqual_int (n : Int64) (hv : ∀ x, v ≠ .float x) :
    atomsEqual (.int n) v = true ↔ v.asInt? = some n := by
  cases v
  case float x => exact absurd rfl (hv x)
  case int k =>
    rw [@eq_comm _ _ (some n)]
    exact beq_iff_eq
  case bool b =>
    rw [@eq_comm _ _ (some n)]
    exact beq_iff_eq
  all_goals simp [atomsEqual, isNumber, asInt?, isSame]

/-- No list needs to be opened to compare something with an integer. -/
theorem Store.equal?_int (s : Store) (n : Int64) (v : Value) :
    s.equal? (.int n) v = some (Value.atomsEqual (.int n) v) := by
  unfold equal? pairDepth
  cases v <;> rfl

theorem Store.anyEqual?_ints (s : Store) (v : Value) (ns : List Int64) :
    s.anyEqual? v (ns.map .int) = some (ns.any fun n => Value.atomsEqual (.int n) v) := by
  induction ns with
  | nil => rfl
  | cons n ns ih =>
    simp only [List.map_cons, anyEqual?, equal?_int, Option.bind_eq_bind, Option.bind_some, ih,
      List.any_cons]
    cases Value.atomsEqual (.int n) v <;> rfl

/-- A list of integers holds all that is equal to one of them. -/
theorem Store.isIn_ints {s : Store} {l : ListRef} {ns : List Int64}
    (items : (s.items l).toList = ns.map .int) (v : Value) :
    s.compare .isIn v (.list l) = pure (ns.any fun n => Value.atomsEqual (.int n) v) := by
  change attempt (s.anyEqual? v (s.items l).toList) = _
  rw [items, anyEqual?_ints]
  rfl

/-- A progression holds the values that stand for one of its integers. -/
theorem Range.isIn_iff (nonzero : r.step ≠ 0) (v : Value) :
    v.asInt?.any r.contains = true ↔ ∃ n ∈ r.toList, v.asInt? = some n := by
  cases number : v.asInt? with
  | none => simp
  | some n => simp [contains_iff_mem nonzero]

namespace Setting

variable {σ : Type} {m : Machine σ}

/-- The list of a progression is made unless the deadline is missed first. -/
theorem list_of_range (env : Setting σ) (p : Position) (nonzero : r.step ≠ 0)
    (short : r.length ≤ maxLength) :
    (∃ missed timer, env.limits.deadline ≠ none ∧
      env.callBuiltin .list [.range r] p m = .failed (.deadline missed) { m with timer }) ∨
    ∃ l store timer,
      env.callBuiltin .list [.range r] p m = .done (.list l) { m with store, timer } ∧
      (store.items l).toList = r.toList.map .int := by
  have elements : m.store.elements? (.range r) = some (r.toList.map .int) := if_neg nonzero
  have collected : env.Timely m _ (env.collect p (.range r) m) :=
    timely_collect elements (checkLength_of_le short)
  have listed : env.callBuiltin .list [.range r] p =
      env.collect p (.range r) >>= fun vs => Action.edit (Store.newList vs) := rfl
  rw [listed, Action.bind_apply]
  generalize env.collect p (.range r) m = e at collected
  cases collected with
  | late timer missed limited => exact .inl ⟨missed, timer, limited, rfl⟩
  | inTime timer =>
    refine .inr ⟨⟨m.store.lists.size⟩, _, timer, rfl, ?_⟩
    simp [Store.items]

/-- A value is in the list of a progression just when an integer of the progression is equal to it.
If the value is not a float, then it is also in the progression itself just then; no float is in a
progression. -/
theorem membership_listed (env : Setting σ) (p : Position) (nonzero : r.step ≠ 0)
    (short : r.length ≤ maxLength) :
    (∃ missed timer, env.limits.deadline ≠ none ∧
      env.callBuiltin .list [.range r] p m = .failed (.deadline missed) { m with timer }) ∨
    ∃ l store timer,
      env.callBuiltin .list [.range r] p m = .done (.list l) { m with store, timer } ∧
      (store.items l).toList = r.toList.map .int ∧
      ∀ v, ∃ answer,
        store.compare .isIn v (.list l) = pure answer ∧
        (answer = true ↔ ∃ n ∈ r.toList, store.equal? (.int n) v = some true) ∧
        ((∀ x, v ≠ .float x) → store.compare .isIn v (.range r) = pure answer) ∧
        ∀ x, v = .float x → store.compare .isIn v (.range r) = pure false := by
  obtain late | ⟨l, store, timer, made, items⟩ := list_of_range (m := m) env p nonzero short
  · exact .inl late
  · refine .inr ⟨l, store, timer, made, items, fun v => ⟨_, Store.isIn_ints items v, ?_, ?_, ?_⟩⟩
    · simp only [List.any_eq_true, Store.equal?_int, Option.some_inj]
    · intro hv
      change pure (v.asInt?.any r.contains) = _
      congr 1
      rw [Bool.eq_iff_iff, Range.isIn_iff nonzero, List.any_eq_true]
      simp only [Value.atomsEqual_int _ hv]
    · rintro x rfl
      rfl

/-- Of 0, 2 and 4, the int 2 is in the list, and `True` is not. -/
theorem membership_listed_even :
    (⟨0, 5, 2⟩ : Range).step ≠ 0 ∧ (⟨0, 5, 2⟩ : Range).length ≤ maxLength ∧
      ∃ l m', callBuiltin ⟨.default, .steady, none⟩ .list [.range ⟨0, 5, 2⟩] .start
          (Machine.initial ()) = .done (.list l) m' ∧
        m'.store.compare .isIn (.int 2) (.list l) = pure true ∧
        m'.store.compare .isIn (.bool true) (.list l) = pure false := by
  have nonzero : (⟨0, 5, 2⟩ : Range).step ≠ 0 := by decide
  have short : (⟨0, 5, 2⟩ : Range).length ≤ maxLength := by decide
  refine ⟨nonzero, short, ?_⟩
  obtain ⟨_, _, limited, -⟩ | ⟨l, store, timer, made, -, spec⟩ :=
    membership_listed (m := Machine.initial ()) ⟨.default, .steady, none⟩ .start nonzero short
  · exact absurd rfl limited
  · obtain ⟨two, isIn, -, inRange, -⟩ := spec (.int 2)
    obtain ⟨one, isIn', -, inRange', -⟩ := spec (.bool true)
    refine ⟨l, _, made, isIn.trans ((inRange nofun).symm.trans rfl), ?_⟩
    exact isIn'.trans ((inRange' nofun).symm.trans rfl)

/-- The float 2.0 is in the list of the integers below 5, but not in their progression. -/
theorem float_listed_not_in_range :
    ∃ l m', callBuiltin ⟨.default, .steady, none⟩ .list [.range ⟨0, 5, 1⟩] .start
        (Machine.initial ()) = .done (.list l) m' ∧
      m'.store.compare .isIn (.float 2.0) (.list l) = pure true ∧
      m'.store.compare .isIn (.float 2.0) (.range ⟨0, 5, 1⟩) = pure false := by
  obtain ⟨_, _, limited, -⟩ | ⟨l, store, timer, made, items⟩ :=
    list_of_range (r := ⟨0, 5, 1⟩) (m := Machine.initial ()) ⟨.default, .steady, none⟩ .start
      (by decide) (by decide)
  · exact absurd rfl limited
  · refine ⟨l, _, made, (Store.isIn_ints items _).trans (congrArg pure ?_), rfl⟩
    decide +kernel

end Setting

end Footprint
