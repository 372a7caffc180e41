import Footprint.Proofs.Alike
import Footprint.Proofs.MoreSteps

set_option autoImplicit false

/-!
Listening changes nothing: what a script does is the same whatever listeners that never fail answer
to its events, and the same without a listener.
-/

namespace Footprint

section

variable {σ τ ω : Type}

/-- The listener answers every event. -/
def Listener.NeverFails (l : Listener σ) : Prop :=
  ∀ frame e s, ∃ answer s', l.hear frame e s = (.ok answer, s')

/-- A tracer fails only when the listener behind it does. -/
theorem tracerListener_neverFails (index : Nat) {prior : Option (Listener (Monitors ω))}
    (h : ∀ l ∈ prior, l.NeverFails) : (tracerListener index prior).NeverFails := by
  rintro frame e ⟨tracers, host⟩
  unfold tracerListener
  cases prior with
  | none => exact ⟨_, _, rfl⟩
  | some l =>
    obtain ⟨answer, s, hl⟩ := h l rfl frame e ⟨tracers.modify index (·.hear frame e), host⟩
    exact ⟨.proceed, s, by simp only [hl]⟩

/-- Machines that cannot be told apart without their listeners and their timers. -/
def Likeness.unheard (σ τ : Type) : Likeness σ τ :=
  ⟨.untraced, fun _ _ => True, fun _ _ => True⟩

theorem Machine.Alike.unheard_of_eq {m : Machine σ} {m' : Machine τ}
    (h : m.Alike (.unheard σ τ) m') {stack stack' : Array Frame} {s : σ} {s' : τ}
    (hstack : stack.map FrameView.untraced.see = m.stack.map FrameView.untraced.see)
    (hstack' : stack'.map FrameView.untraced.see = m'.stack.map FrameView.untraced.see) :
    Machine.Alike (.unheard σ τ) { m with stack, monitor := s }
      { m' with stack := stack', monitor := s' } :=
  { h with stack := hstack.trans (h.stack.trans hstack'.symm), monitor := trivial }

namespace Setting

variable {env : Setting σ} (h : ∀ l ∈ env.listener, l.NeverFails)

include h

theorem ask_eq_done (e : Event) (m : Machine σ) :
    ∃ answer s, env.ask e m = .done answer { m with monitor := s } := by
  rw [ask_apply]
  split
  next l frame hl _ =>
    split
    · obtain ⟨answer, s, hs⟩ := h l hl (frame.info m.stack.size) e m.monitor
      exact ⟨answer, s, by simp only [hs]⟩
    · exact ⟨_, m.monitor, rfl⟩
  next => exact ⟨_, m.monitor, rfl⟩

theorem announce_eq_done (m : Machine σ) :
    ∃ stack s, env.announce m = .done () { m with stack, monitor := s } ∧
      stack.map FrameView.untraced.see = m.stack.map FrameView.untraced.see := by
  obtain ⟨answer, s, hs⟩ := ask_eq_done h .call m
  unfold announce
  rw [Action.bind_apply, hs]
  dsimp only
  split
  · refine ⟨_, s, rfl, ?_⟩
    apply Array.ext
    · simp
    · intro i _ _
      simp only [Array.getElem_map, Array.getElem_modify]
      split <;> rfl
  · exact ⟨m.stack, s, rfl, rfl⟩

omit h in
theorem alike_of_neverFails {env : Setting σ} {env' : Setting τ}
    (hlimits : env.limits = env'.limits) (timeless : env.limits.deadline = none)
    (h : ∀ l ∈ env.listener, l.NeverFails) (h' : ∀ l ∈ env'.listener, l.NeverFails) :
    env.Alike (.unheard σ τ) env' where
  limits := hlimits
  startTimer _ _ hm := .done () { hm with timer := trivial }
  checkDeadline := by
    intro m m' hm
    have timeless' : env'.limits.deadline = none := hlimits ▸ timeless
    simp only [checkDeadline, timeless, timeless']
    exact .done () hm
  tell e _ := by
    intro m m' hm
    obtain ⟨_, s, hs⟩ := ask_eq_done h e m
    obtain ⟨_, s', hs'⟩ := ask_eq_done h' e m'
    rw [tell_apply, tell_apply, hs, hs']
    exact .done () (hm.unheard_of_eq rfl rfl)
  announce := by
    intro m m' hm
    obtain ⟨stack, s, hs, hstack⟩ := announce_eq_done h m
    obtain ⟨stack', s', hs', hstack'⟩ := announce_eq_done h' m'
    rw [hs, hs']
    exact .done () (hm.unheard_of_eq hstack hstack')

end Setting

namespace Interpreter

/-- What a host sees of a run that has ended. -/
structure Outcome (α : Type) where
  result : Except Failure α
  store : Store
  output : Output

/-- Two runs, given by the outcomes they may have: either neither of them ends, or both end with the
same outcome and cannot end with another. -/
def EndAlike {α : Type} (a b : Outcome α → Prop) : Prop :=
  (∀ o, ¬a o ∧ ¬b o) ∨ ∃ o, ∀ p, (a p ↔ p = o) ∧ (b p ↔ p = o)

theorem EndAlike.of_iff {α : Type} {a b : Outcome α → Prop} (h : ∀ o, a o ↔ b o)
    (unique : ∀ {o p}, a o → a p → o = p) : EndAlike a b := by
  by_cases ended : ∃ o, a o
  · obtain ⟨o, ho⟩ := ended
    have only (p : Outcome α) : a p ↔ p = o := ⟨fun hp => unique hp ho, fun hp => hp ▸ ho⟩
    exact .inr ⟨o, fun p => ⟨only p, (h p).symm.trans (only p)⟩⟩
  · exact .inl fun o => ⟨fun ho => ended ⟨o, ho⟩, fun ho => ended ⟨o, (h o).2 ho⟩⟩

variable {α : Type} {i : Interpreter ω} {μ : Monitors ω}

def outcome (r : Except Failure α × Interpreter ω × Monitors ω) : Outcome α :=
  ⟨r.1, r.2.1.machine.store, r.2.1.machine.output⟩

/-- A run ends with an outcome. -/
def RunGives (i : Interpreter ω) (μ : Monitors ω) (o : Outcome Unit) : Prop :=
  ∃ n, (i.run n μ).map outcome = some o

/-- A call of a global function ends with an outcome. -/
def CallGives (i : Interpreter ω) (μ : Monitors ω) (name : String) (args : Edit (List Value))
    (o : Outcome Value) : Prop :=
  ∃ n, (i.call n μ name args).map outcome = some o

theorem RunGives.unique {o p : Outcome Unit} (ho : i.RunGives μ o) (hp : i.RunGives μ p) :
    o = p := by
  obtain ⟨n, ho⟩ := ho
  obtain ⟨k, hp⟩ := hp
  obtain ⟨r, hr, rfl⟩ := Option.map_eq_some_iff.1 ho
  obtain ⟨s, hs, rfl⟩ := Option.map_eq_some_iff.1 hp
  rw [RunsTo.unique ⟨n, hr⟩ ⟨k, hs⟩]

theorem CallGives.unique {name : String} {args : Edit (List Value)} {o p : Outcome Value}
    (ho : i.CallGives μ name args o) (hp : i.CallGives μ name args p) : o = p := by
  obtain ⟨n, ho⟩ := ho
  obtain ⟨k, hp⟩ := hp
  obtain ⟨r, hr, rfl⟩ := Option.map_eq_some_iff.1 ho
  obtain ⟨s, hs, rfl⟩ := Option.map_eq_some_iff.1 hp
  rw [CallsTo.unique ⟨n, hr⟩ ⟨k, hs⟩]

/-- The interpreter with tracers entered on it, the last one first. -/
def enterAll (i : Interpreter ω) : List Nat → Interpreter ω
  | [] => i
  | t :: ts => (i.enterAll ts).enter t

theorem enterAll_eq (i : Interpreter ω) (tracers : List Nat) :
    ∃ listener, i.enterAll tracers = { i with listener } := by
  induction tracers with
  | nil => exact ⟨i.listener, rfl⟩
  | cons t ts ih =>
    obtain ⟨listener, h⟩ := ih
    exact ⟨_, by rw [enterAll, h]; rfl⟩

theorem enterAll_neverFails (h : ∀ l ∈ i.listener, l.NeverFails)
    (tracers : List Nat) : ∀ l ∈ (i.enterAll tracers).listener, l.NeverFails := by
  induction tracers with
  | nil => exact h
  | cons t ts ih =>
    intro l hl
    cases hl
    exact tracerListener_neverFails t ih

theorem act_alike (i j : Interpreter ω) (hlimits : i.limits = j.limits)
    (timeless : i.limits.deadline = none) (hmachine : i.machine = j.machine)
    (hi : ∀ l ∈ i.listener, l.NeverFails)
    (hj : ∀ l ∈ j.listener, l.NeverFails) (μ ν : Monitors ω)
    {x y : Setting (Monitors ω) → Action (Monitors ω) α}
    (h : ∀ env env' : Setting (Monitors ω), env.Alike (.unheard _ _) env' →
      Action.Alike (.unheard _ _) (x env) (y env')) :
    (i.act μ x).map outcome = (j.act ν y).map outcome := by
  have henv : i.setting.Alike (.unheard _ _) j.setting :=
    Setting.alike_of_neverFails hlimits timeless hi hj
  have hm : (i.machine.withMonitor μ).Alike (.unheard _ _) (j.machine.withMonitor ν) := by
    rw [hmachine]
    exact ⟨rfl, rfl, rfl, rfl, rfl, rfl, rfl, trivial, trivial⟩
  unfold act
  rcases (h _ _ henv hm).cases with
    ⟨a, n, n', e, e', hn⟩ | ⟨f, n, n', e, e', hn⟩ | ⟨n, n', e, e', hn⟩ <;> simp only [e, e']
  · simp only [Option.map_some, outcome, Machine.withMonitor, hn.store, hn.output]
  · simp only [Option.map_some, outcome, Machine.withMonitor, hn.store, hn.output]

/-- Without a deadline, a script does the same whatever never failing listener there is and however
many tracers are entered in front of it as it does without any of them, and by whatever clock. -/
theorem run_unheard (timeless : i.limits.deadline = none) (h : ∀ l ∈ i.listener, l.NeverFails)
    (tracers : List Nat) (clock : Clock) (μ ν : Monitors ω) :
    EndAlike ((i.enterAll tracers).RunGives μ) ({ i.leave none with clock }.RunGives ν) ∧
    ∀ name args, EndAlike ((i.enterAll tracers).CallGives μ name args)
      ({ i.leave none with clock }.CallGives ν name args) := by
  have hall := enterAll_neverFails h tracers
  obtain ⟨listener, hi⟩ := i.enterAll_eq tracers
  rw [hi] at hall ⊢
  let heard : Interpreter ω := { i with listener }
  let unheard : Interpreter ω := { i.leave none with clock }
  have silent : ∀ l ∈ unheard.listener, l.NeverFails := nofun
  constructor
  · refine .of_iff (fun o => exists_congr fun n => ?_) RunGives.unique
    have same := act_alike heard unheard rfl timeless rfl hall silent μ ν
      fun env env' henv => henv.runScript n i.program.script
    exact iff_of_eq (congrArg (· = some o) same)
  · intro name args
    refine .of_iff (fun o => exists_congr fun n => ?_) CallGives.unique
    have same := act_alike heard unheard rfl timeless rfl hall silent μ ν
      fun env env' henv => (Action.Alike.edit args).bind fun vs => henv.callGlobal n name vs
    exact iff_of_eq (congrArg (· = some o) same)

/-- A script of one statement, run with a listener that asks for no further events of any frame. -/
theorem run_unheard_detached :
    let l : Listener (Monitors Unit) := ⟨fun _ _ s => (.ok .detach, s)⟩
    let i : Interpreter Unit :=
      { (new ⟨"pass", ⟨[.pass .start]⟩⟩ .default .steady : Interpreter Unit) with
        listener := some l }
    ((i.enterAll [0, 1]).run 3 ⟨#[.new, .new], ()⟩).isSome = true ∧
    EndAlike ((i.enterAll [0, 1]).RunGives ⟨#[.new, .new], ()⟩)
      ({ i.leave none with clock := fun n => 5 * n }.RunGives ⟨#[], ()⟩) := by
  intro l i
  have answers : ∀ l ∈ i.listener, l.NeverFails := by
    intro l' hl frame e s
    cases hl
    exact ⟨.detach, s, rfl⟩
  exact ⟨by decide +kernel, (run_unheard rfl answers [0, 1] _ _ _).1⟩

end Interpreter

end

end Footprint
