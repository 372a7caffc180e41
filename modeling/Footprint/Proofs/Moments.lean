import Footprint.Proofs.Idle
import Footprint.Proofs.Recording

set_option autoImplicit false

/-!
What is the case at every moment of a run: how many frames there are, and which exceptions are being
handled. A watched run is the run itself, in which a note is taken of each request and each event,
and of the exceptions whose except clauses have been entered and not left.
-/

namespace Footprint

/-- A moment of a run. -/
inductive Moment where
  /-- Something is asked for: the number of frames, the exceptions being handled, and those whose
  except clauses are running, innermost first. -/
  | request (depth : Nat) (handling running : List Failure)
  /-- An event is told: the number of frames. -/
  | event (depth : Nat)

/-- The number of frames is within the limit, and the exceptions being handled are those whose
except clauses are running. -/
def Moment.Proper (limits : Limits) : Moment → Prop
  | .request depth handling running => depth ≤ max limits.maxDepth 1 ∧ handling = running
  | .event depth => depth ≤ max limits.maxDepth 1

section

variable {ω : Type}

/-- Takes a note of a request. -/
def Action.noteRequest (running : List Failure) : Action (Monitors (ω × List Moment)) Unit :=
  fun m =>
    .done () { m with monitor := m.monitor.addNote (.request m.stack.size m.handling running) }

/-- What answers requests that are nested at most so deep, with a note taken of each request. The
statements of an except clause run with its exception among those that `running` lists. -/
def Setting.watch (env : Setting (Monitors (ω × List Moment))) :
    Nat → List Failure → Calls (Monitors (ω × List Moment))
  | 0, _ => ⟨fun _ => .unfinished, fun _ => .unfinished, fun _ => .unfinished⟩
  | n + 1, running =>
    { value := fun t => do
        .noteRequest running
        env.evaluation (env.watch n running) t
      place := fun t => do
        .noteRequest running
        placement (env.watch n running) t
      run := fun t => do
        .noteRequest running
        match t with
        | .clause f h => .clause f h.name ((env.watch n (f :: running)).block h.body)
        | t => env.execution (env.watch n running) t }

/-! ### Watched runs are the runs themselves -/

theorem Action.Alike.noteRequest {α : Type} {x : Action (Monitors ω) α}
    {y : Action (Monitors (ω × List Moment)) α} (h : Alike (.noted ω Moment) x y)
    (running : List Failure) : Alike (.noted ω Moment) x (do .noteRequest running; y) := by
  intro m m' hm
  have noted : m.Alike (.noted ω Moment) { m' with
      monitor := m'.monitor.addNote (.request m'.stack.size m'.handling running) } :=
    { hm with monitor := hm.monitor }
  exact h noted

theorem Setting.watch_alike {env : Setting (Monitors ω)}
    {env' : Setting (Monitors (ω × List Moment))} (h : env.Alike (.noted ω Moment) env') (n : Nat)
    (running : List Failure) :
    (Likeness.noted ω Moment).relation.Agree (env.calls n) (env'.watch n running) := by
  induction n generalizing running with
  | zero => exact h.closed.unanswered fun c _ _ _ => (h.closed.steps c).unfinished
  | succ n ih =>
    constructor
    · intro c known t
      exact (h.closed.evaluation (ih running) known t).noteRequest running
    · intro c known t
      exact (h.closed.placement (ih running) known t).noteRequest running
    · intro c known t allowed
      refine Action.Alike.noteRequest ?_ running
      cases t with
      | clause f hd =>
        have body := (ih (f :: running)).run known (.block hd.body) (Code.Owns.of_clause allowed)
        exact h.encloses.clause f hd.name body
      | block | stmt | whileRounds | forRounds =>
        exact h.closed.execution (ih running) known h.encloses allowed
    · intro c known b owned
      exact (h.closed.runBlock (ih running) known (.of_final owned)).noteRequest running

/-! ### The protocol of moments -/

/-- All notes that are taken are proper. -/
def Monitors.Proper (limits : Limits) (μ : Monitors (ω × List Moment)) : Prop :=
  ∀ moment ∈ μ.notes, moment.Proper limits

/-- The protocol of a frame that runs while some exceptions are being handled. -/
def Protocol.moments (ω : Type) (limits : Limits) (running : List Failure) :
    Protocol (Monitors (ω × List Moment)) :=
  .preserving (fun _ => True)
    (fun handling depth => handling = running ∧ depth ≤ max limits.maxDepth 1)
    (Monitors.Proper limits)

theorem Monitors.Proper.addNote {limits : Limits} {μ : Monitors (ω × List Moment)}
    (h : μ.Proper limits) (moment : Moment) (hm : moment.Proper limits) :
    (μ.addNote moment).Proper limits := by
  intro m hmem
  rcases List.mem_append.1 hmem with old | new
  · exact h m old
  · rw [List.mem_singleton.1 new]
    exact hm

/-- The setting of an interpreter in which a note is taken of the number of frames at each event. -/
def Interpreter.watched (i : Interpreter ω) : Interpreter (ω × List Moment) :=
  i.noting fun f _ _ => .event f.depth

theorem Interpreter.proper_hear (i : Interpreter ω) {f : Frame} {d : Nat} (e : Event)
    {s : Monitors (ω × List Moment)} (hd : d ≤ max i.limits.maxDepth 1)
    (hs : s.Proper i.limits) : (i.watched.setting.hear f d e s).2.Proper i.limits := by
  unfold Setting.hear setting watched noting
  cases i.listener with
  | none => exact hs
  | some l =>
    dsimp only [Option.map_some]
    split
    · exact hs.addNote (.event d) hd
    · exact hs

theorem Protocol.moments_admits (i : Interpreter ω) (running : List Failure) :
    (moments ω i.limits running).Admits i.watched.setting := by
  apply preserving_admits
  · intros
    trivial
  · rintro hs d ⟨rfl, -⟩ room
    refine ⟨rfl, ?_⟩
    change d < i.limits.maxDepth at room
    omega
  · intro f hs d e s stage _ proper
    exact i.proper_hear e stage.2 proper

theorem Protocol.moments_exceptions (i : Interpreter ω) (running : List Failure) :
    (moments ω i.limits running).AdmitsExceptions i.watched.setting :=
  preserving_exceptions fun _ _ _ e _ stage _ proper => i.proper_hear e stage.2 proper

theorem Protocol.Follows.noteRequest {limits : Limits} {running : List Failure} {c : Code} :
    (moments ω limits running).Follows c (Action.noteRequest running) := by
  intro m hm
  obtain ⟨stack, f, hf, -⟩ := hm.frame
  refine ⟨hm.functions, rfl, stack, f, f.line, f.reported, hf, hf, fun hs => ?_⟩
  exact hs.addNote (.request m.stack.size m.handling running) ⟨hm.stage.2, hm.stage.1⟩

theorem Protocol.moments_under {limits : Limits} {running : List Failure} {c : Code} {α : Type}
    {x : Action (Monitors (ω × List Moment)) α} (f : Failure)
    (hx : (moments ω limits (f :: running)).Follows c x) :
    ((moments ω limits running).under f).Follows c x := by
  apply Follows.restage (P := moments ω limits running) hx
  rintro hs d ⟨rest, rfl, rfl, depth⟩
  exact ⟨rfl, depth⟩

theorem Protocol.watch_agree (i : Interpreter ω) (n : Nat) (running : List Failure) :
    (moments ω i.limits running).relation.Agree (i.watched.setting.watch n running)
      (i.watched.setting.watch n running) := by
  have admits (running : List Failure) := moments_admits i running
  have exceptions (running : List Failure) := moments_exceptions i running
  induction n generalizing running with
  | zero =>
    have closed := Protocol.closed (admits running)
    exact closed.unanswered fun c _ _ _ => (closed.steps c).unfinished
  | succ n ih =>
    have closed := Protocol.closed (admits running)
    constructor
    · intro c known t
      apply Follows.noteRequest.bind (admits running)
      exact fun _ => closed.evaluation (ih running) known t
    · intro c known t
      apply Follows.noteRequest.bind (admits running)
      exact fun _ => closed.placement (ih running) known t
    · intro c known t allowed
      apply Follows.noteRequest.bind (admits running)
      intro _
      cases t with
      | clause f hd =>
        have body := (ih (f :: running)).run (c := c) trivial (.block hd.body)
          (Code.Owns.of_clause allowed)
        exact Protocol.clause (admits running) (exceptions running) f hd.name
          (moments_under f body)
      | block body => exact closed.runBlock (ih running) known allowed
      | stmt s =>
        have told := closed.performTold (ih running) known allowed
        exact Protocol.reporting (admits running) (exceptions running) told
      | whileRounds test body orelse p => exact closed.whileRounds (ih running) known allowed
      | forRounds target items body orelse p =>
        obtain ⟨iter, owned⟩ := allowed
        exact closed.forRounds (ih running) known items owned
    · intro c known b owned
      apply Follows.noteRequest.bind (admits running)
      exact fun _ => closed.runBlock (ih running) known (.of_final owned)

/-! ### Watched runs -/

namespace Interpreter

variable {i : Interpreter ω}

/-- The run of the program, watched. -/
def watchRun (i : Interpreter ω) (n : Nat) (μ : Monitors ω) :
    Ending (Monitors (ω × List Moment)) Unit :=
  i.watched.setting.runWith (i.watched.setting.watch n []) i.program.script (i.unnoted μ)

/-- The call of a global function, watched. -/
def watchCall (i : Interpreter ω) (n : Nat) (μ : Monitors ω) (name : String)
    (args : Edit (List Value)) : Ending (Monitors (ω × List Moment)) Value :=
  (do
    let vs ← Action.edit args
    i.watched.setting.callWith (i.watched.setting.watch n []) name vs) (i.unnoted μ)

theorem watchRun_plain (i : Interpreter ω) (n : Nat) (μ : Monitors ω) :
    (i.watchRun n μ).plain =
      i.setting.runScript n i.program.script (i.machine.withMonitor μ) := by
  have watched : i.setting.Alike (.noted ω Moment) i.watched.setting := alike_noting _ i
  exact plain_runWith watched (Setting.watch_alike watched n []) (unnoted_alike i μ)

theorem watchCall_plain (i : Interpreter ω) (n : Nat) (μ : Monitors ω) (name : String)
    (args : Edit (List Value)) :
    (i.watchCall n μ name args).plain =
      (do let vs ← Action.edit args; i.setting.callGlobal n name vs) (i.machine.withMonitor μ) := by
  have watched : i.setting.Alike (.noted ω Moment) i.watched.setting := alike_noting _ i
  exact plain_callWith watched (Setting.watch_alike watched n []) (unnoted_alike i μ) name args

theorem watchRun_proper (idle : i.machine.Idle) (n : Nat) (μ : Monitors ω) :
    (i.watchRun n μ).machine.monitor.Proper i.limits := by
  have stage : (Protocol.moments ω i.limits []).stage i.machine.handling i.machine.stack.size := by
    rw [idle.handling, idle.stack]
    exact ⟨rfl, Nat.zero_le _⟩
  have start : (i.unnoted μ).monitor.Proper i.limits := fun _ h => absurd h List.not_mem_nil
  have run := Protocol.runWith_concludes (m := i.unnoted μ) (Protocol.moments_admits i [])
    (Protocol.watch_agree i n []) i.program.script trivial stage fun _ _ _ => trivial
  exact run.preserved start

theorem watchCall_proper (idle : i.machine.Idle) (n : Nat) (μ : Monitors ω) (name : String)
    (args : Edit (List Value)) :
    (i.watchCall n μ name args).machine.monitor.Proper i.limits := by
  have stage : (Protocol.moments ω i.limits []).stage i.machine.handling
      (i.machine.stack.size + 1) := by
    rw [idle.handling, idle.stack]
    exact ⟨rfl, Nat.le_max_right _ _⟩
  let m : Machine (Monitors (ω × List Moment)) :=
    { i.unnoted μ with store := (args i.machine.store).2 }
  have start : m.monitor.Proper i.limits := fun _ h => absurd h List.not_mem_nil
  have call := Protocol.callGlobal_concludes (m := m) (Protocol.moments_admits i [])
    (Protocol.watch_agree i n []) i.program.script trivial stage (fun _ _ _ => trivial) name
    (args i.machine.store).1
  exact call.preserved start

/-- However a run or a call ends, the interpreter is idle again; while it runs there are never more
frames than allowed, the exceptions being handled are those whose except clauses are running, and a
bare raise raises the innermost of them. -/
theorem restored {p : Program} {limits : Limits} (reached : Reached p limits i) :
    (∀ n μ r j ν, i.run n μ = some (r, j, ν) → j.machine.Idle) ∧
    (∀ n μ name args r j ν, i.call n μ name args = some (r, j, ν) → j.machine.Idle) ∧
    (∀ n μ, (i.watchRun n μ).machine.monitor.Proper i.limits ∧
      (i.watchRun n μ).plain =
        i.setting.runScript n i.program.script (i.machine.withMonitor μ)) ∧
    (∀ n μ name args, (i.watchCall n μ name args).machine.monitor.Proper i.limits ∧
      (i.watchCall n μ name args).plain =
        (do let vs ← Action.edit args; i.setting.callGlobal n name vs)
          (i.machine.withMonitor μ)) ∧
    ∀ (c : Calls (Monitors ω)) (q : Position) (m : Machine (Monitors ω)) (f : Failure)
      (outer : List Failure), m.handling = f :: outer →
        i.setting.perform c (.raise none q) m = .failed f m := by
  have idle := reached.idle
  refine ⟨?_, ?_, ?_, ?_, ?_⟩
  · intro n μ r j ν ended
    exact idle_of_run idle ended
  · intro n μ name args r j ν ended
    exact idle_of_call idle ended
  · intro n μ
    exact ⟨watchRun_proper idle n μ, watchRun_plain i n μ⟩
  · intro n μ name args
    exact ⟨watchCall_proper idle n μ name args, watchCall_plain i n μ name args⟩
  · intro c q m f outer handling
    change Action.reraise q m = _
    unfold Action.reraise
    rw [handling]

/-- A script of one statement, with a listener that fails at every event. -/
theorem restored_failing :
    let l : Listener (Monitors Unit) := ⟨fun _ _ s => (.error "stop", s)⟩
    let i : Interpreter Unit :=
      { (new ⟨"pass", ⟨[.pass .start]⟩⟩ .default .steady : Interpreter Unit) with
        listener := some l }
    (∃ r j ν, i.run 3 ⟨#[], ()⟩ = some (r, j, ν) ∧ j.machine.Idle) ∧
    (i.watchRun 3 ⟨#[], ()⟩).machine.monitor.Proper i.limits := by
  intro l i
  have reached : Reached _ _ i := .listen _ (.new .steady)
  obtain ⟨run, -, watched, -⟩ := restored reached
  obtain ⟨⟨r, j, ν⟩, ended⟩ := Option.isSome_iff_exists.1
    (show (i.run 3 ⟨#[], ()⟩).isSome = true by decide +kernel)
  exact ⟨⟨r, j, ν, ended, run 3 _ r j ν ended⟩, (watched 3 _).1⟩

end Interpreter

end

end Footprint
