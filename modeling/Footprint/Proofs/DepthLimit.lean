import Footprint.Proofs.NoteProbe
import Footprint.Proofs.Unmarked

set_option autoImplicit false

/-!
The limit on the number of frames is observed in one place only. So a run that no further frame has
been refused to comes to the same under every larger limit. The refusals are noted by a probe; that
`RecursionError` has been raised, or has not, would say less, since scripts may raise it and catch
it.
-/

namespace Footprint

open Footprint.Action Footprint.Setting

section

variable {σ ω : Type}

/-! ### Larger limits -/

def Setting.deepened (env : Setting σ) (depth : Nat) : Setting σ :=
  { env with limits := { env.limits with maxDepth := depth } }

/-- The interpreter with another limit on the number of frames. -/
def Interpreter.deepened (i : Interpreter ω) (depth : Nat) : Interpreter ω :=
  { i with limits := { i.limits with maxDepth := depth } }

section

variable {env : Setting σ} {depth : Nat} {c : Calls σ}

theorem markLines_deepened (ns : List Nat) :
    (env.deepened depth).markLines ns = env.markLines ns := by
  induction ns with
  | nil => rfl
  | cons n ns ih =>
    unfold Setting.markLines
    rw [ih]
    rfl

theorem handle_deepened (f : Failure) (handlers : List Handler) :
    (env.deepened depth).handle c.value c.run f handlers =
      env.handle c.value c.run f handlers := by
  induction handlers with
  | nil => rfl
  | cons h hs ih =>
    unfold Setting.handle
    rw [ih]
    rfl

theorem callBuiltin_deepened (b : Builtin) (args : List Value) (q : Position) :
    (env.deepened depth).callBuiltin b args q = env.callBuiltin b args q := by
  cases b <;> rfl

/-- Calls of functions apart, values do not depend on the limit. -/
theorem evaluation_deepened {t : Evaluation}
    (other : ∀ r args q, t ≠ .call (.function r) args q) :
    (env.deepened depth).evaluation c t = env.evaluation c t := by
  cases t with
  | expr e => rfl
  | call callee args q =>
    cases callee with
    | function r => exact absurd rfl (other r args q)
    | builtin b => exact callBuiltin_deepened b args q
    | classObject name scope isException => cases isException <;> rfl
    | _ => rfl

/-- Definitions of classes apart, what statements do does not depend on the limit. -/
theorem perform_deepened {s : Stmt} (other : ∀ head body, s ≠ .classDef head body) :
    (env.deepened depth).perform c s = env.perform c s := by
  cases s with
  | classDef head body => exact absurd rfl (other head body)
  | tryBlock body handlers orelse final q =>
    unfold Setting.perform Setting.tryBlock
    simp only [handle_deepened]
  | augment target => cases target <;> rfl
  | ret value => cases value <;> rfl
  | annotate target annotation value => cases value <;> rfl
  | _ => rfl

/-- Loops and blocks ask for all that depends on the limit. -/
theorem execution_deepened {t : Execution} (other : ∀ s, t ≠ .stmt s) :
    (env.deepened depth).execution c t = env.execution c t := by
  cases t with
  | stmt s => exact absurd rfl (other s)
  | _ => rfl

/-- Where two settings differ in the limit on the number of frames only, probed runs differ only if
frames do. -/
theorem Probe.calls_deepened {p p' : Probe σ} (naming : p.naming = p'.naming)
    (rejecting : p.rejecting = p'.rejecting)
    (frames : ∀ frame x, p.inFrame env frame x = p'.inFrame (env.deepened depth) frame x) (n : Nat) :
    p.calls env n = p'.calls (env.deepened depth) n := by
  obtain ⟨names, entering, rejects⟩ := p
  obtain ⟨_, entering', _⟩ := p'
  cases naming
  cases rejecting
  induction n with
  | zero => rfl
  | succ n ih =>
    unfold Probe.calls
    rw [ih]
    congr 1
    · funext t
      unfold Probe.evaluation
      split
      · unfold Probe.callFunction
        simp only [frames]
      · next other => exact (evaluation_deepened other).symm
    · funext t
      unfold Probe.execution
      split
      · have performed (s : Stmt) (c : Calls σ) :
            Probe.perform ⟨names, entering, rejects⟩ env c s =
              Probe.perform ⟨names, entering', rejects⟩ (env.deepened depth) c s := by
          unfold Probe.perform
          split
          · rfl
          · unfold Setting.makeClass
            simp only [frames]
            rfl
          · rfl
          · rfl
          · next other _ _ => exact (perform_deepened other).symm
        rw [performed, markLines_deepened]
        rfl
      · rfl
      · next other _ => exact (execution_deepened other).symm

end

/-! ### Refusals -/

/-- Takes a note, of where the run stands, each time a further frame is refused. -/
def Probe.refusals (limits : Limits) : Probe (Monitors (ω × List Position)) where
  naming _ := pure ()
  entering m := .done () <|
    if limits.maxDepth ≤ m.stack.size then { m with monitor := m.monitor.addNote m.pos } else m
  rejecting _ := pure ()

/-- Takes the same notes, and refuses the frame itself. -/
def Probe.refusing (limits : Limits) : Probe (Monitors (ω × List Position)) where
  naming _ := pure ()
  entering m :=
    if limits.maxDepth ≤ m.stack.size then
      raiseAt .recursionLimit m.pos { m with monitor := m.monitor.addNote m.pos }
    else .done () m
  rejecting _ := pure ()

variable {env : Setting (Monitors ω)} {env' : Setting (Monitors (ω × List Position))}

section

variable {limits : Limits} (frame : Frame) (x : Action (Monitors (ω × List Position)) Unit)
  {m : Machine (Monitors (ω × List Position))}

theorem Probe.inFrame_full (full : limits.maxDepth ≤ m.stack.size) :
    (refusing limits).inFrame env' frame x m =
      .failed (.ofFault .recursionLimit m.pos)
        { m with monitor := m.monitor.addNote m.pos } := by
  unfold Probe.inFrame
  rw [bind_apply]
  simp only [refusing, if_pos full]
  rfl

theorem Probe.inFrame_free (free : ¬ limits.maxDepth ≤ m.stack.size) :
    (refusing limits).inFrame env' frame x m = env'.inFrame frame x m := by
  unfold Probe.inFrame
  rw [bind_apply]
  simp only [refusing, if_neg free]

/-- Under a larger limit frames are refused by the probe alone. -/
theorem Probe.inFrame_refusing {depth : Nat} (deeper : env'.limits.maxDepth ≤ depth) :
    (refusals env'.limits).inFrame env' frame x =
      (refusing env'.limits).inFrame (env'.deepened depth) frame x := by
  funext m
  by_cases full : env'.limits.maxDepth ≤ m.stack.size
  · rw [inFrame_full _ _ full]
    unfold Probe.inFrame
    rw [bind_apply]
    simp only [refusals, if_pos full]
    unfold Setting.inFrame
    rw [if_pos full]
    rfl
  · rw [inFrame_free _ _ full]
    unfold Probe.inFrame
    rw [bind_apply]
    simp only [refusals, if_neg full]
    have free : ¬ (env'.deepened depth).limits.maxDepth ≤ m.stack.size :=
      fun h => full (Nat.le_trans deeper h)
    unfold Setting.inFrame
    rw [if_neg full, if_neg free]
    rfl

end

theorem Probe.takesNotes_refusals (limits : Limits) :
    (Probe.refusals limits : Probe (Monitors (ω × List Position))).TakesNotes where
  naming _ := .pure ()
  rejecting _ := .pure ()
  entering m m' hm := by
    refine .done () ?_
    split
    · exact { hm with monitor := hm.monitor }
    · exact hm

theorem attends_refusing (alike : env.Alike (.noted ω Position) env')
    (quiet : ∀ f d e μ, (env'.hear f d e μ).2.notes = μ.notes) (limits : Limits) :
    (Unmarked.relation ω Position).Attends env env' .idle (.refusing limits) where
  naming _ _ := .of_alike (.pure ()) (.pure ())
  rejecting _ _ := .of_alike (.pure ()) (.pure ())
  inFrame {_ _ frame x y} _ _ hx := by
    have inner : Unmarked (env.inFrame frame x) (env'.inFrame frame y) :=
      hx.inFrame alike quiet frame
    constructor
    · intro m
      by_cases full : limits.maxDepth ≤ m.stack.size
      · rw [Probe.inFrame_full _ _ full]
        have more : (m.monitor.notes ++ [m.pos]).length = m.marks + 1 := List.length_append
        exact Nat.le_of_lt (Nat.lt_of_lt_of_eq (Nat.lt_succ_self m.marks) more.symm)
      · rw [Probe.inFrame_free _ _ full]
        exact inner.grows m
    · intro m m' hm none
      by_cases full : limits.maxDepth ≤ m'.stack.size
      · rw [Probe.inFrame_full _ _ full] at none
        have more : (m'.monitor.notes ++ [m'.pos]).length = m'.marks + 1 := List.length_append
        exact absurd (more.symm.trans none) (Nat.succ_ne_self _)
      · rw [Probe.inFrame_free _ _ full] at none ⊢
        exact inner.same hm none
  clause f name _ _ hx := by
    rw [Probe.clause_eq (fun _ => rfl), Probe.clause_eq (fun _ => rfl)]
    exact (Unmarked.encloses alike quiet).clause (c := .top ⟨[]⟩) f name hx

section

variable {depth : Nat} (deeper : env'.limits.maxDepth ≤ depth) (n : Nat)

include deeper

/-- Under a larger limit the probe that refuses takes the place of the limit. -/
theorem Probe.calls_refusing :
    (refusals env'.limits).calls env' n =
      (refusing env'.limits).calls (env'.deepened depth) n :=
  calls_deepened (show (refusals env'.limits).naming = (refusing env'.limits).naming from rfl)
    (show (refusals env'.limits).rejecting = (refusing env'.limits).rejecting from rfl)
    (fun frame x => inFrame_refusing frame x deeper) n

theorem Probe.runWith_refusing (script : Script) :
    (refusals env'.limits).runWith env' ((refusals env'.limits).calls env' n) script =
      (refusing env'.limits).runWith (env'.deepened depth)
        ((refusing env'.limits).calls (env'.deepened depth) n) script := by
  rw [calls_refusing deeper]
  unfold Probe.runWith
  rw [inFrame_refusing _ _ deeper]
  rfl

end

section

variable (alike : env.Alike (.noted ω Position) env')
  (quiet : ∀ f d e μ, (env'.hear f d e μ).2.notes = μ.notes) (limits : Limits) (n : Nat)

include alike quiet

theorem agree_refusing : (Unmarked.relation ω Position).Agree (env.calls n)
    ((Probe.refusing limits).calls env' n) := by
  have agree := (Unmarked.closed alike quiet).callsProbed (attends_refusing alike quiet limits)
    (Unmarked.encloses alike quiet) id n
  rwa [Probe.calls_idle] at agree

theorem unmarked_runScript (script : Script) :
    Unmarked (env.runScript n script)
      ((Probe.refusing limits).runWith env' ((Probe.refusing limits).calls env' n) script) := by
  have body := (agree_refusing alike quiet limits n).run (c := .top script) trivial _
    (Code.allows_body _)
  have whole := (attends_refusing alike quiet limits).inFrame (c := .top ⟨[]⟩) trivial
    (.top script) body
  exact (Unmarked.of_alike alike.startTimer fun _ => rfl).bind fun _ =>
    (Unmarked.of_alike (.setJump .none) fun _ => rfl).bind fun _ =>
      whole.bind fun _ => .of_alike (.pure ()) (.pure ())

theorem unmarked_callGlobal (name : String) (vs : List Value) :
    Unmarked (env.callGlobal n name vs)
      (env'.callWith ((Probe.refusing limits).calls env' n) name vs) := by
  refine (Unmarked.of_alike (.observe _) (.observe _)).bind fun callee => ?_
  cases callee with
  | none => exact .of_alike (.observe _) (.observe _)
  | some v =>
    apply (Unmarked.of_alike alike.startTimer fun _ => rfl).bind
    intro _
    apply Unmarked.inHostFrame
    refine (Unmarked.of_alike .getPos fun _ => rfl).bind fun q => ?_
    exact (agree_refusing alike quiet limits n).value (c := .top ⟨[]⟩) trivial (.call v vs q)

end

/-! ### Runs and calls -/

namespace Interpreter

variable (i : Interpreter ω) (n : Nat) (μ : Monitors ω) (name : String) (args : Edit (List Value))

/-- The run of the program, with a note taken of each refusal. -/
def limitRun : Ending (Monitors (ω × List Position)) Unit :=
  let env := (i.aside Position).setting
  let p := Probe.refusals i.limits
  p.runWith env (p.calls env n) i.program.script (i.unnoted μ)

/-- The call of a global function, with a note taken of each refusal. -/
def limitCall : Ending (Monitors (ω × List Position)) Value :=
  let env := (i.aside Position).setting
  let p := Probe.refusals i.limits
  (do
    let vs ← edit args
    env.callWith (p.calls env n) name vs) (i.unnoted μ)

/-- The computation of a host comes to the same under the larger limit if no frame is refused. -/
def Unrefused {α : Type} (depth : Nat) (x : Setting (Monitors ω) → Action (Monitors ω) α)
    (r : Ending (Monitors (ω × List Position)) α) : Prop :=
  r.plain = x i.setting (i.machine.withMonitor μ) ∧
    (r.machine.monitor.notes = [] → (i.deepened depth).act μ x =
      (i.act μ x).map fun (answer, j, ν) => (answer, j.deepened depth, ν))

variable {i n μ name args} {depth : Nat}

theorem unrefused {α : Type} {x : Setting (Monitors ω) → Action (Monitors ω) α}
    {y : Action (Monitors (ω × List Position)) α}
    (noted : Action.Alike (.noted ω Position) (x i.setting) y)
    (unmarked : Unmarked (x (i.deepened depth).setting) y) :
    i.Unrefused μ depth x (y (i.unnoted μ)) := by
  have start : (i.machine.withMonitor μ).Alike (.noted ω Position) (i.unnoted μ) :=
    unnoted_alike i μ
  have plain := (noted start).plain_eq
  refine ⟨plain, fun none => ?_⟩
  have same := (unmarked.same start (congrArg List.length none)).plain_eq
  unfold act
  rw [show (i.deepened depth).machine = i.machine from rfl, ← plain, ← same]
  cases (y (i.unnoted μ)).plain with
  | done a m | failed f m => rfl
  | unfinished m => rfl

/-- Raising the limit on the number of frames never changes a run, or a call, in which no frame has
been refused: it ends in the same way, with the same store and output, and the listener has come to
the same state, whatever it keeps of the events it has been told. -/
theorem unrefused_deepened (deeper : i.limits.maxDepth ≤ depth) :
    i.Unrefused μ depth (·.runScript n i.program.script) (i.limitRun n μ) ∧
    ∀ name args, i.Unrefused μ depth (fun env => do
      let vs ← edit args
      env.callGlobal n name vs) (i.limitCall n μ name args) := by
  let env := (i.aside Position).setting
  have alike : (i.deepened depth).setting.Alike (.noted ω Position) (env.deepened depth) :=
    alike_aside _ (i.deepened depth)
  have quiet : ∀ f d e μ, ((env.deepened depth).hear f d e μ).2.notes = μ.notes :=
    notes_hear_aside (i.deepened depth)
  have notes := Probe.takesNotes_refusals (ω := ω) i.limits
  constructor
  · have noted := i.runProbed_alike n notes i.program.script
    refine unrefused (x := (·.runScript n i.program.script)) noted ?_
    have same := Probe.runWith_refusing (show env.limits.maxDepth ≤ depth from deeper) n
      i.program.script
    exact same ▸ unmarked_runScript alike quiet i.limits n i.program.script
  · intro name args
    have noted := i.callProbed_alike n notes name args
    have edited : Unmarked (edit args : Action (Monitors ω) (List Value))
        (edit args : Action (Monitors (ω × List Position)) (List Value)) :=
      .of_alike (.edit args) fun _ => rfl
    refine unrefused (x := fun env => do
      let vs ← edit args
      env.callGlobal n name vs) noted (edited.bind fun vs => ?_)
    have same := Probe.calls_refusing (show env.limits.maxDepth ≤ depth from deeper) n
    exact same ▸ unmarked_callGlobal alike quiet i.limits n name vs

/-- A function that is called at the top level needs two frames and no more. -/
theorem unrefused_deepened_call :
    let head : FunctionHead := ⟨"f", false, [], [], none, 1, ⟨[], [], []⟩, ⟨1, 1⟩, 2⟩
    let called : Stmt := .expr (.call (.name "f" ⟨3, 1⟩) [] ⟨3, 1⟩) ⟨3, 1⟩
    let p : Program := ⟨"def f():\n    pass\nf()\n", ⟨[.function head [.pass ⟨2, 5⟩], called]⟩⟩
    let i (depth : Nat) : Interpreter Unit := .new p ⟨depth, none⟩ .steady
    let μ : Monitors Unit := ⟨#[], ()⟩
    ((i 1).limitRun 12 μ).machine.monitor.notes = [⟨3, 1⟩] ∧
      (i 2).limits.maxDepth ≤ 1000 ∧ ((i 2).limitRun 12 μ).machine.monitor.notes = [] ∧
      ((i 2).run 12 μ).isSome = true ∧
      (i 1000).run 12 μ = ((i 2).run 12 μ).map fun (answer, j, ν) => (answer, j.deepened 1000, ν) := by
  intro head called p i μ
  have none : ((i 2).limitRun 12 μ).machine.monitor.notes = [] := by decide +kernel
  have deeper : (i 2).limits.maxDepth ≤ 1000 := by decide
  exact ⟨by decide +kernel, deeper, none, by decide +kernel, (unrefused_deepened deeper).1.2 none⟩

end Interpreter

end

end Footprint
