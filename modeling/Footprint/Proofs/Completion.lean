import Footprint.Proofs.Jumps

set_option autoImplicit false

/-!
How statements complete. While it runs a machine keeps the jump that is under way and the value to
be returned to itself; here they are read off it at the end, and the structured parts of running are
described by the completions of what they are made of.
-/

namespace Footprint

inductive Completion where
  | normal | broken | continued
  | returned (v : Value)
  | raised (f : Failure)

section

variable {σ α β γ : Type}

/-- How a statement ends that completes so on a machine with nothing under way. -/
def Completion.ending (o : Completion) : Action σ Unit := fun m =>
  match o with
  | normal => .done () m
  | broken => .done () { m with jump := .brk }
  | continued => .done () { m with jump := .cont }
  | returned v => .done () { m with jump := .ret, returned := v }
  | raised f => .failed f m

/-- The completion of a statement, if it has ended. -/
def Ending.completion? : Ending σ Unit → Option Completion
  | .done _ m =>
    match m.jump with
    | .none => some .normal
    | .brk => some .broken
    | .cont => some .continued
    | .ret => some (.returned m.returned)
  | .failed f _ => some (.raised f)
  | .unfinished _ => none

/-- The machine with nothing under way. -/
def Machine.settle (m : Machine σ) : Machine σ := { m with jump := .none, returned := .none }

theorem Machine.Settled.settle_eq {m : Machine σ} (h : m.Settled) : m.settle = m := by
  obtain ⟨store, stack, output, handling, pos, jump, returned, timer, monitor⟩ := m
  obtain ⟨rfl, rfl⟩ := h
  rfl

theorem Machine.Settled.jump_eq {m : Machine σ} (h : m.Settled) : { m with jump := .none } = m := by
  rw [← h.1]

namespace Completion

variable {o o' : Completion} {m m' : Machine σ}

theorem completion?_ending (o : Completion) (h : m.Settled) :
    (o.ending m).completion? = some o := by
  cases o with
  | normal =>
    dsimp only [ending, Ending.completion?]
    rw [h.1]
  | broken | continued | returned v | raised f => rfl

theorem machine_ending (o : Completion) (h : m.Settled) : (o.ending m).machine.settle = m := by
  cases o with
  | normal | broken | continued | returned v | raised f => exact h.settle_eq

/-- The ways to complete exclude each other. -/
theorem ending_inj (hm : m.Settled) (hm' : m'.Settled) (h : o.ending m = o'.ending m') :
    o = o' ∧ m = m' := by
  constructor
  · have same := congrArg Ending.completion? h
    rw [o.completion?_ending hm, o'.completion?_ending hm'] at same
    exact Option.some.inj same
  · rw [← o.machine_ending hm, h, o'.machine_ending hm']

theorem ending_ne_unfinished (o : Completion) (m m' : Machine σ) :
    o.ending m ≠ .unfinished m' := by
  cases o with
  | normal | broken | continued | returned v | raised f => nofun

end Completion

/-! ### The parts of running -/

namespace Action

theorem bind_assoc (x : Action σ α) (f : α → Action σ β) (g : β → Action σ γ) :
    (x >>= f) >>= g = x >>= fun a => f a >>= g := by
  funext m
  simp only [bind_apply]
  cases x m <;> rfl

theorem bind_done {x : Action σ α} {f : α → Action σ β} {m m' : Machine σ} {a : α}
    (h : x m = .done a m') : (x >>= f) m = f a m' := by
  rw [bind_apply, h]

theorem bind_failed {x : Action σ α} {f : α → Action σ β} {m m' : Machine σ} {e : Failure}
    (h : x m = .failed e m') : (x >>= f) m = .failed e m' := by
  rw [bind_apply, h]

theorem bind_unfinished {x : Action σ α} {f : α → Action σ β} {m m' : Machine σ}
    (h : x m = .unfinished m') : (x >>= f) m = .unfinished m' := by
  rw [bind_apply, h]

end Action

namespace Completion

/-- What comes after a statement that completes so: `y` if it does so normally, and `h` if it raises
an exception. -/
def resume (o : Completion) (y : Action σ Unit) (h : Failure → Action σ Unit) : Action σ Unit :=
  fun m =>
    match o with
    | normal => y m
    | raised f => h f m
    | o => o.ending m

theorem resume_fail {o : Completion} (abrupt : o ≠ .normal) (y : Action σ Unit) (m : Machine σ) :
    o.resume y Action.fail m = o.ending m := by
  cases o with
  | normal => exact absurd rfl abrupt
  | broken | continued | returned v | raised f => rfl

theorem resume_jump {o : Completion} (abrupt : o ≠ .normal) (calm : ∀ f, o ≠ .raised f)
    (y : Action σ Unit) (h : Failure → Action σ Unit) (m : Machine σ) :
    o.resume y h m = o.ending m := by
  cases o with
  | normal => exact absurd rfl abrupt
  | broken | continued | returned v => rfl
  | raised f => exact absurd rfl (calm f)

theorem resume_pure {o : Completion} (calm : ∀ f, o ≠ .raised f) (h : Failure → Action σ Unit)
    (m : Machine σ) : o.resume (pure ()) h m = o.ending m := by
  cases o with
  | normal | broken | continued | returned v => rfl
  | raised f => exact absurd rfl (calm f)

/-- What comes after a body of a loop that completes so: the next round, unless the loop is left. -/
def nextRound (o : Completion) (again : Action σ Unit) : Action σ Unit := fun m =>
  match o with
  | normal | continued => again m
  | broken => normal.ending m
  | o => o.ending m

/-- How a statement with a finally block completes: as it would do without the block if that one
completes normally, and else as the block does. -/
def lastly (o last : Completion) : Completion :=
  match last with
  | normal => o
  | last => last

/-- The value that a frame gives whose body completes so. -/
def value (o : Completion) : Machine σ → Ending σ Value :=
  match o with
  | returned v => .done v
  | raised f => .failed f
  | _ => .done .none

theorem ends_value {m : Machine σ} (o : Completion) (h : m.Settled) :
    (o.value m).Ends (·.returned = .none) := by
  cases o with
  | normal | broken | continued | returned v | raised f => exact h.2

end Completion

/-- The machine without a name of an except clause, if the clause has one. -/
def Machine.forget? (m : Machine σ) : Option String → Machine σ
  | none => m
  | some name => m.forget name

theorem Completion.forget_ending (o : Completion) (name : String) (m : Machine σ) :
    (o.ending m).machine.forget name = (o.ending (m.forget name)).machine := by
  cases o with
  | normal | raised f => rfl
  | broken | continued | returned v =>
    simp only [ending, Ending.machine, Machine.forget_eq]
    cases m.store.unassign (m.stack.back?.getD .top).kind name with
    | ok e => rfl
    | error f => rfl

/-- The jump and the value that a completion leaves, put back on another machine. -/
theorem Completion.restore_ending (o : Completion) {m m' : Machine σ} (hm : m.Settled)
    (hm' : m'.Settled) :
    { m' with jump := (o.ending m).machine.jump, returned := (o.ending m).machine.returned } =
      (o.ending m').machine := by
  cases o with
  | normal | raised f =>
    change { m' with jump := m.jump, returned := m.returned } = m'
    rw [hm.1, hm.2]
    exact hm'.settle_eq
  | broken =>
    change { m' with jump := .brk, returned := m.returned } = { m' with jump := .brk }
    rw [hm.2, ← hm'.2]
  | continued =>
    change { m' with jump := .cont, returned := m.returned } = { m' with jump := .cont }
    rw [hm.2, ← hm'.2]
  | returned v => rfl

theorem Machine.Settled.forget? {m : Machine σ} (h : m.Settled) (name : Option String) :
    (m.forget? name).Settled := by
  cases name with
  | none => exact h
  | some name =>
    obtain ⟨jump, returned⟩ := Action.forget_jump m name
    exact ⟨jump.trans h.1, returned.trans h.2⟩

namespace Action

variable {x y : Action σ Unit} {m m₁ m₂ : Machine σ} {o o' : Completion} (hx : x m = o.ending m₁)

include hx

theorem proceed_ending (hm : m₁.Settled) (h : Failure → Action σ Unit) :
    proceed x y h m = o.resume y h m₁ := by
  unfold proceed
  rw [hx]
  cases o with
  | normal => exact if_pos hm.1
  | broken | continued | returned v | raised f => rfl

theorem round_ending (hm : m₁.Settled) : round x y m = o.nextRound y m₁ := by
  have arrived : ({ m₁ with jump := .none } : Machine σ) = m₁ := hm.jump_eq
  unfold round
  rw [hx]
  cases o with
  | normal =>
    dsimp only [Completion.ending]
    rw [hm.1]
    rfl
  | broken | continued =>
    dsimp only [Completion.ending]
    rw [arrived]
    rfl
  | returned v | raised f => rfl

omit hx in
theorem putAside_normal {final : Action σ Unit} {pending : Machine σ → Ending σ Unit}
    (hf : final m.settle = .done () m₂) (hm' : m₂.Settled) :
    putAside final pending m = pending { m₂ with jump := m.jump, returned := m.returned } := by
  rw [putAside_apply]
  unfold Machine.settle at hf
  rw [hf]
  exact if_pos hm'.1

omit hx in
theorem putAside_abrupt {final : Action σ Unit} {pending : Machine σ → Ending σ Unit}
    (hf : final m.settle = o'.ending m₂) (abrupt : o' ≠ .normal) :
    putAside final pending m = o'.ending m₂ := by
  rw [putAside_apply]
  unfold Machine.settle at hf
  rw [hf]
  cases o' with
  | normal => exact absurd rfl abrupt
  | broken | continued | returned v | raised f => rfl

theorem lastly_ending (hm : m₁.Settled) {final : Action σ Unit} (hf : final m₁ = o'.ending m₂)
    (hm' : m₂.Settled) : lastly x final m = (o.lastly o').ending m₂ := by
  have aside : final (o.ending m₁).machine.settle = o'.ending m₂ := by
    rw [o.machine_ending hm, hf]
  have back := o.restore_ending hm hm'
  unfold lastly
  rw [hx]
  by_cases abrupt : o' = .normal
  · subst abrupt
    cases o with
    | normal | broken | continued | returned v =>
      exact (putAside_normal aside hm').trans (congrArg (Ending.done ()) back)
    | raised f => exact (putAside_normal aside hm').trans (congrArg (Ending.failed f) back)
  · have stands : o.lastly o' = o' := by
      cases o' with
      | normal => exact absurd rfl abrupt
      | broken | continued | returned v | raised f => rfl
    rw [stands]
    cases o with
    | normal | broken | continued | returned v | raised f => exact putAside_abrupt aside abrupt

omit hx in
theorem whileHandling_ending {f : Failure}
    (hx : x { m with handling := f :: m.handling } = o.ending m₁) :
    whileHandling f x m = o.ending { m₁ with handling := m₁.handling.tail } := by
  unfold whileHandling
  rw [hx]
  cases o with
  | normal | broken | continued | returned v | raised g => rfl

theorem thenForget_ending (name : Option String) :
    thenForget name x m = o.ending (m₁.forget? name) := by
  cases name with
  | none => exact hx
  | some name =>
    have forgotten := o.forget_ending name m₁
    unfold thenForget
    dsimp only
    rw [hx]
    cases o with
    | normal | broken | continued | returned v => exact congrArg (Ending.done ()) forgotten
    | raised f => exact congrArg (Ending.failed f) forgotten

/-- What a frame gives does not depend on the jump that is under way when its body has ended. -/
theorem finish_result (env : Setting σ) (hm : m₁.Settled) :
    env.finish ((do x; result) m) = env.finish (o.value m₁) := by
  rw [bind_apply, hx]
  cases o with
  | normal =>
    dsimp only [Completion.ending]
    rw [result_apply, if_neg (by rw [hm.1]; decide)]
    rfl
  | broken | continued => rfl
  | returned v =>
    have same : ({ m₁ with jump := .none, returned := .none } : Machine σ) =
        { m₁ with jump := .none } := by rw [← hm.2]
    dsimp only [Completion.ending]
    rw [result_apply, if_pos rfl]
    unfold Setting.finish Completion.value
    dsimp only
    rw [same]
  | raised f => rfl

omit hx

/-! ### What does not end -/

theorem proceed_unfinished {h : Failure → Action σ Unit} (hx : x m = .unfinished m₁) :
    proceed x y h m = .unfinished m₁ := by
  unfold proceed
  rw [hx]

theorem round_unfinished (hx : x m = .unfinished m₁) : round x y m = .unfinished m₁ := by
  unfold round
  rw [hx]

theorem lastly_unfinished (hx : x m = .unfinished m₁) : lastly x y m = .unfinished m₁ := by
  unfold lastly
  rw [hx]

theorem lastly_final_unfinished (hx : x m = o.ending m₁) (hm : m₁.Settled)
    (hy : y m₁ = .unfinished m₂) : lastly x y m = .unfinished m₂ := by
  have aside {pending : Machine σ → Ending σ Unit} :
      putAside y pending (o.ending m₁).machine = .unfinished m₂ := by
    have hy' : y (o.ending m₁).machine.settle = .unfinished m₂ := by rw [o.machine_ending hm, hy]
    rw [putAside_apply]
    unfold Machine.settle at hy'
    rw [hy']
  unfold lastly
  rw [hx]
  cases o with
  | normal | broken | continued | returned v | raised f => exact aside

theorem whileHandling_unfinished {f : Failure}
    (hx : x { m with handling := f :: m.handling } = .unfinished m₁) :
    whileHandling f x m = .unfinished m₁ := by
  unfold whileHandling
  rw [hx]

theorem thenForget_unfinished (hx : x m = .unfinished m₁) (name : Option String) :
    thenForget name x m = .unfinished m₁ := by
  cases name with
  | none => exact hx
  | some name =>
    unfold thenForget
    dsimp only
    rw [hx]

end Action

end

end Footprint
