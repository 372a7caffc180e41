import Footprint.Proofs.Recording

set_option autoImplicit false

/-!
The chronicle of a run: what is told, and what becomes of failures. It is the run itself, in which
a note is taken of each event, of each failure that something asked for comes to, and of each
exception that is caught.
-/

namespace Footprint

/-- What a chronicle says. -/
inductive Sign where
  /-- An event has been told and answered. -/
  | heard (h : Heard)
  /-- Something asked for that is not a statement has failed. -/
  | failed (f : Failure)
  /-- A failure has come out of a statement, in a frame that is traced or not. -/
  | out (f : Failure) (traced : Bool)
  /-- An except clause has caught an exception, in a frame that is traced or not. -/
  | caught (traced : Bool)

/-- The sign of an event. -/
abbrev Sign.event (f : FrameInfo) (e : Event) (answer : Except String Control) : Sign :=
  .heard ⟨f, e, answer⟩

section

variable {ω α : Type}

namespace Action

/-- Takes a note, which may depend on the current frame. -/
def note (sign : Frame → Sign) : Action (Monitors (ω × List Sign)) Unit := fun m =>
  .done () { m with monitor := m.monitor.addNote (sign (m.stack.back?.getD .top)) }

/-- Runs a computation and takes a note if it fails. -/
def noteFailure (sign : Failure → Frame → Sign) (x : Action (Monitors (ω × List Sign)) α) :
    Action (Monitors (ω × List Sign)) α := fun m =>
  match x m with
  | .failed f m => (do note (sign f); fail f) m
  | ending => ending

end Action

/-- What answers requests that are nested at most so deep, with notes taken. -/
def Setting.chronicle (env : Setting (Monitors (ω × List Sign))) :
    Nat → Calls (Monitors (ω × List Sign))
  | 0 => ⟨fun _ => .unfinished, fun _ => .unfinished, fun _ => .unfinished⟩
  | n + 1 =>
    { value := fun t => .noteFailure (fun f _ => .failed f) (env.evaluation (env.chronicle n) t)
      place := fun t => .noteFailure (fun f _ => .failed f) (placement (env.chronicle n) t)
      run := fun t =>
        match t with
        | .stmt s => .noteFailure (fun f frame => .out f frame.traced)
            (env.execution (env.chronicle n) (.stmt s))
        | .clause f h => .noteFailure (fun f _ => .failed f) do
            .note (.caught ·.traced)
            env.execution (env.chronicle n) (.clause f h)
        | t => .noteFailure (fun f _ => .failed f) (env.execution (env.chronicle n) t) }

/-! ### Chronicles are of the runs themselves -/

namespace Action.Alike

variable {x : Action (Monitors ω) α} {y : Action (Monitors (ω × List Sign)) α}

theorem note {m : Machine (Monitors ω)} {m' : Machine (Monitors (ω × List Sign))}
    (hm : m.Alike (.noted ω Sign) m') (sign : Sign) :
    m.Alike (.noted ω Sign) { m' with monitor := m'.monitor.addNote sign } :=
  { hm with monitor := hm.monitor }

theorem noteFailure (h : Alike (.noted ω Sign) x y) (sign : Failure → Frame → Sign) :
    Alike (.noted ω Sign) x (noteFailure sign y) := by
  intro m m' hm
  unfold Action.noteFailure
  rcases (h hm).cases with ⟨a, n, n', e, e', hn⟩ | ⟨f, n, n', e, e', hn⟩ | ⟨n, n', e, e', hn⟩ <;>
    simp only [e, e']
  · exact .done a hn
  · exact .failed f (note hn _)
  · exact .unfinished hn

theorem noteFirst (h : Alike (.noted ω Sign) x y) (sign : Frame → Sign) :
    Alike (.noted ω Sign) x (do Action.note sign; y) := fun _ _ hm => h (note hm _)

end Action.Alike

theorem Setting.chronicle_alike {env : Setting (Monitors ω)}
    {env' : Setting (Monitors (ω × List Sign))} (h : env.Alike (.noted ω Sign) env') (n : Nat) :
    (Likeness.noted ω Sign).relation.Agree (env.calls n) (env'.chronicle n) := by
  induction n with
  | zero => exact h.closed.unanswered fun c _ _ _ => (h.closed.steps c).unfinished
  | succ n ih =>
    constructor
    · intro c known t
      exact (h.closed.evaluation ih known t).noteFailure _
    · intro c known t
      exact (h.closed.placement ih known t).noteFailure _
    · intro c known t allowed
      have same := h.closed.execution ih known h.encloses allowed
      cases t with
      | clause f hd => exact (Action.Alike.noteFirst same _).noteFailure _
      | block | stmt | whileRounds | forRounds => exact Action.Alike.noteFailure same _
    · intro c known b owned
      exact (h.closed.runBlock ih known (.of_final owned)).noteFailure _

namespace Interpreter

/-- The interpreter, with a note taken of each event. -/
def chronicled (i : Interpreter ω) : Interpreter (ω × List Sign) :=
  i.noting .event

/-- The run of the program, with its chronicle. -/
def chronicleRun (i : Interpreter ω) (n : Nat) (μ : Monitors ω) :
    Ending (Monitors (ω × List Sign)) Unit :=
  let env := i.chronicled.setting
  env.runWith (env.chronicle n) i.program.script (i.unnoted μ)

/-- The call of a global function, with its chronicle. -/
def chronicleCall (i : Interpreter ω) (n : Nat) (μ : Monitors ω) (name : String)
    (args : Edit (List Value)) : Ending (Monitors (ω × List Sign)) Value :=
  let env := i.chronicled.setting
  (do
    let vs ← Action.edit args
    env.callWith (env.chronicle n) name vs) (i.unnoted μ)

theorem chronicleRun_plain (i : Interpreter ω) (n : Nat) (μ : Monitors ω) :
    (i.chronicleRun n μ).plain =
      i.setting.runScript n i.program.script (i.machine.withMonitor μ) := by
  have same : i.setting.Alike (.noted ω Sign) i.chronicled.setting := alike_noting _ i
  exact plain_runWith same (Setting.chronicle_alike same n) (unnoted_alike i μ)

theorem chronicleCall_plain (i : Interpreter ω) (n : Nat) (μ : Monitors ω) (name : String)
    (args : Edit (List Value)) :
    (i.chronicleCall n μ name args).plain =
      (do let vs ← Action.edit args; i.setting.callGlobal n name vs) (i.machine.withMonitor μ) := by
  have same : i.setting.Alike (.noted ω Sign) i.chronicled.setting := alike_noting _ i
  exact plain_callWith same (Setting.chronicle_alike same n) (unnoted_alike i μ) name args

end Interpreter

end

end Footprint
