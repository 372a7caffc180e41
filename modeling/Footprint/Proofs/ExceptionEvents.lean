import Footprint.Proofs.Chronicle
import Footprint.Proofs.Idle

set_option autoImplicit false

/-!
When exceptions are told. In each activation that a listener hears of, an exception event is told
when an exception first comes out of a statement after the activation has begun or has last caught
one, and at no other time. An exception that a finally block has discarded, or put another one in
the place of, does not count as caught.
-/

namespace Footprint

open Footprint.Action

/-- How an activation stands with the exceptions that come out of its statements. -/
inductive Standing where
  /-- None has since it began or last caught one. -/
  | calm
  /-- One has, and has just been told. -/
  | telling
  /-- One has, and the first of them has been told. -/
  | told
  deriving DecidableEq

namespace Standing

/-- As a frame keeps it. -/
def of (reported : Bool) : Standing := if reported then told else calm

/-- What becomes of the activations that are heard of, the innermost first, if the rule for
exceptions is kept. -/
def follow : List Standing → Sign → Option (List Standing)
  | telling :: st, .out _ true => some (told :: st)
  | telling :: _, _ => none
  | st, .failed _ | st, .out _ false | st, .caught false => some st
  | st, .heard ⟨_, .call, answer⟩ => some (if staysTraced answer then calm :: st else st)
  | _ :: st, .heard ⟨_, .ret, _⟩ => some st
  | s :: st, .heard ⟨_, .line, _⟩ => some (s :: st)
  | calm :: st, .heard ⟨_, .exception, _⟩ => some (telling :: st)
  | calm :: st, .out f true => if f.isCatchable then none else some (calm :: st)
  | told :: st, .out _ true => some (told :: st)
  | _ :: st, .caught true => some (calm :: st)
  | _, _ => none

def followAll (st : List Standing) (signs : List Sign) : Option (List Standing) :=
  signs.foldlM follow st

/-- No exception of the innermost activation has just been told. -/
def Steady (st : List Standing) : Prop := st.head? ≠ some telling

variable {st st' : List Standing} {signs more : List Sign}

theorem steady_of (reported : Bool) (st : List Standing) : Steady (of reported :: st) := by
  cases reported <;> exact nofun

theorem followAll_append (h : followAll st signs = some st') :
    followAll st (signs ++ more) = followAll st' more := by
  unfold followAll at h ⊢
  rw [List.foldlM_append, h]
  rfl

/-- What may stand innermost when no exception has just been told. -/
theorem Steady.cases (h : Steady st) :
    st = [] ∨ ∃ reported rest, st = of reported :: rest := by
  cases st with
  | nil => exact .inl rfl
  | cons s rest =>
    cases s with
    | calm => exact .inr ⟨false, rest, rfl⟩
    | telling => exact absurd rfl h
    | told => exact .inr ⟨true, rest, rfl⟩

theorem follow_call (h : Steady st) (f : FrameInfo) (answer : Except String Control) :
    follow st (.heard ⟨f, .call, answer⟩) =
      some (if staysTraced answer then calm :: st else st) := by
  obtain rfl | ⟨reported, rest, rfl⟩ := h.cases
  · rfl
  · cases reported <;> rfl

/-- The signs are those of a frame, heard of or not, that stands as its machine says before and
after them, and of what it calls. -/
def Passes (heardOf reported reported' : Bool) (signs : List Sign) : Prop :=
  match heardOf with
  | true => ∀ st, followAll (of reported :: st) signs = some (of reported' :: st)
  | false => ∀ st, Steady st → followAll st signs = some st

/-- The signs leave all activations as they stand. -/
def Keeps (signs : List Sign) : Prop := ∀ st, Steady st → followAll st signs = some st

theorem Keeps.passes (h : Keeps signs) (heardOf reported : Bool) :
    Passes heardOf reported reported signs := by
  cases heardOf with
  | true => exact fun st => h _ (steady_of reported st)
  | false => exact h

theorem keeps_nil : Keeps [] := fun _ _ => rfl

theorem Passes.append {heardOf a b c : Bool} (h : Passes heardOf a b signs)
    (h' : Passes heardOf b c more) : Passes heardOf a c (signs ++ more) := by
  cases heardOf with
  | true => exact fun st => (followAll_append (h st)).trans (h' st)
  | false => exact fun st steady => (followAll_append (h st steady)).trans (h' st steady)

/-- Signs in which no activation that is heard of takes part. -/
theorem keeps_apart {sign : Sign}
    (h : (∃ f, sign = .failed f) ∨ (∃ f, sign = .out f false) ∨ sign = .caught false) :
    Keeps [sign] := by
  intro st steady
  obtain ⟨f, rfl⟩ | ⟨f, rfl⟩ | rfl := h <;>
    obtain rfl | ⟨reported, rest, rfl⟩ := steady.cases <;> first | rfl | cases reported <;> rfl

theorem keeps_failed (f : Failure) : Keeps [.failed f] := keeps_apart (.inl ⟨f, rfl⟩)

/-- The first exception that comes out of a statement is told. -/
theorem passes_first (heardOf : Bool) (f : FrameInfo) (answer : Except String Control)
    (e : Failure) :
    Passes heardOf false true
      ((if heardOf then [.event f .exception answer] else []) ++ [.out e heardOf]) := by
  cases heardOf with
  | true => exact fun st => rfl
  | false => exact keeps_apart (.inr (.inl ⟨e, rfl⟩))

/-- Further ones are not, and neither are failures that the script cannot catch. -/
theorem passes_out (heardOf reported : Bool) {e : Failure}
    (h : (e.isCatchable && !reported) = false) :
    Passes heardOf reported reported [.out e heardOf] := by
  cases heardOf with
  | false => exact keeps_apart (.inr (.inl ⟨e, rfl⟩))
  | true =>
    intro st
    cases reported with
    | true => rfl
    | false =>
      rw [Bool.not_false, Bool.and_true] at h
      change (if e.isCatchable then none else some (calm :: st)) >>= pure = some (calm :: st)
      rw [h]
      rfl

theorem passes_caught (heardOf reported : Bool) :
    Passes heardOf reported false [.caught heardOf] := by
  cases heardOf with
  | false => exact keeps_apart (.inr (.inr rfl))
  | true => exact fun st => by cases reported <;> rfl

theorem passes_line (reported : Bool) (f : FrameInfo) (answer : Except String Control) :
    Passes true reported reported [.event f .line answer] := fun st => by cases reported <;> rfl

/-- An activation, from its call to its return if it is heard of. -/
theorem keeps_activation (f g : FrameInfo) (answer last : Except String Control) {reported : Bool}
    (h : Passes (staysTraced answer) false reported signs) :
    Keeps (.event f .call answer :: (signs ++
      if staysTraced answer then [.event g .ret last] else [])) := by
  intro st steady
  change (follow st _ >>= fun st => followAll st _) = _
  rw [follow_call steady]
  change followAll (if staysTraced answer then calm :: st else st) _ = _
  cases stays : staysTraced answer with
  | true =>
    rw [stays] at h
    exact (followAll_append (h st)).trans (by cases reported <;> rfl)
  | false =>
    rw [stays] at h
    exact (followAll_append (h st steady)).trans rfl

end Standing

section

variable {ω α : Type}

/-! ### The protocol of exceptions -/

/-- What is heard of an event after the call. -/
theorem hear_told (limits : Limits) (clock : Clock) (l : Listener (Monitors ω)) (f : Frame)
    (d : Nat) (e : Event) (h : e ≠ .call) (μ : Monitors (ω × List Sign)) :
    let heard := Setting.hear ⟨limits, clock, some (l.noting .event)⟩ f d e μ
    heard.2.host.2 = μ.host.2 ++ if f.traced then [.event (f.info d) e heard.1] else [] := by
  intro heard
  cases traced : f.traced with
  | true => exact hear_recorded .event limits clock l d e μ (.inr traced)
  | false =>
    rw [if_neg Bool.false_ne_true, List.append_nil]
    exact congrArg (·.host.2) (hear_untraced .event limits clock l d e μ h traced)

/-- What follows a failure may be noted with it. -/
theorem Action.noteFailure_proceed (sign : Failure → Frame → Sign)
    (x : Action (Monitors (ω × List Sign)) Unit)
    (h : Failure → Action (Monitors (ω × List Sign)) Unit) :
    noteFailure sign (proceed x (pure ()) h) =
      proceed x (pure ()) fun f => noteFailure sign (h f) := by
  funext m
  unfold Action.noteFailure Action.proceed
  cases x m with
  | done a m' =>
    by_cases under : m'.jump = .none
    · simp only [under, if_true]
      rfl
    · simp only [under, if_false]
  | failed f m' | unfinished m' => rfl

/-- The protocol in which the rule for exceptions is kept. -/
def Protocol.exceptions (ω : Type) : Protocol (Monitors (ω × List Sign)) where
  known _ := True
  stage _ _ := True
  part _ heardOf _ p q := ∃ signs, q.state.host.2 = p.state.host.2 ++ signs ∧
    Standing.Passes heardOf p.reported q.reported signs
  whole _ s s' := ∃ signs, s'.host.2 = s.host.2 ++ signs ∧ Standing.Keeps signs
  cut _ _ := True

variable (limits : Limits) (clock : Clock) (l : Listener (Monitors ω))

theorem Protocol.exceptions_admits :
    (exceptions ω).Admits ⟨limits, clock, some (l.noting .event)⟩ where
  known_of_defines _ _ := trivial
  stage_push _ _ := trivial
  refl _ heardOf _ p := ⟨[], (List.append_nil _).symm, Standing.keeps_nil.passes heardOf p.reported⟩
  trans := by
    rintro c heardOf d p q r ⟨signs, told, passes⟩ ⟨more, told', passes'⟩
    exact ⟨signs ++ more, by rw [told', told, List.append_assoc], passes.append passes'⟩
  line := by
    rintro c ⟨name, code, line, kind, traced, reported⟩ n hs d s - - - -
    cases traced with
    | true =>
      exact ⟨_, hear_recorded .event limits clock l d .line s (.inr rfl),
        Standing.passes_line reported _ _⟩
    | false =>
      rw [hear_untraced .event limits clock l d .line s (by decide) rfl]
      exact ⟨[], (List.append_nil _).symm, Standing.keeps_nil.passes false reported⟩
  activation := by
    rintro c f hs d s s' answer line reported s'' - - begins hcall ⟨signs, told, passes⟩
    have called := hear_recorded .event limits clock l (f := f) d .call s (.inl rfl)
    rw [hcall] at called
    let g : FrameInfo := { f.info d with line }
    let ended : Frame := { f with line, traced := staysTraced answer }
    let heard := Setting.hear ⟨limits, clock, some (l.noting .event)⟩ ended d .ret s''
    refine ⟨_, ?_, Standing.keeps_activation (f.info d) g answer heard.1 passes⟩
    have returned : heard.2.host.2 =
        s''.host.2 ++ if staysTraced answer then [.event g .ret heard.1] else [] :=
      hear_told limits clock l ended d .ret (by decide) s''
    exact returned.trans (by rw [told, called, List.append_assoc, List.append_assoc]; rfl)
  inner := by
    rintro c heardOf d n reported s s' ⟨signs, told, keeps⟩
    exact ⟨signs, told, keeps.passes heardOf reported⟩
  cut_part _ := trivial
  cut_call _ _ _ _ := trivial
  cut_trans _ _ := trivial

namespace Protocol

variable {c : Code}

/-- Taking a note that leaves the frame as it stands. -/
theorem Ready.noted {m : Machine (Monitors (ω × List Sign))} (ready : (exceptions ω).Ready c m)
    (sign : Frame → Sign) (passes : ∀ (stack : Array Frame) (f : Frame), m.stack = stack.push f →
      Standing.Passes f.traced f.reported f.reported [sign f]) :
    (exceptions ω).Passes c m
      { m with monitor := m.monitor.addNote (sign (m.stack.back?.getD .top)) } := by
  obtain ⟨stack, f, hf, -⟩ := ready.frame
  have top : m.stack.back?.getD .top = f := by rw [hf, Array.back?_push, Option.getD_some]
  rw [top]
  exact ⟨ready.functions, rfl, stack, f, f.line, f.reported, hf, hf, [sign f], rfl,
    passes stack f hf⟩

namespace Follows

theorem noteFailed {env : Setting (Monitors (ω × List Sign))} (admits : (exceptions ω).Admits env)
    {x : Action (Monitors (ω × List Sign)) α} (hx : (exceptions ω).Follows c x) :
    (exceptions ω).Follows c (noteFailure (fun f _ => .failed f) x) := by
  intro m ready
  have leaves := hx ready
  unfold Action.noteFailure
  cases hr : x m with
  | done a m' | unfinished m' =>
    rw [hr] at leaves
    exact leaves
  | failed f m' =>
    rw [hr] at leaves
    have passed : (exceptions ω).Passes c m m' := leaves
    refine passed.trans admits ((passed.ready ready).noted (fun _ => .failed f) ?_)
    exact fun _ g _ => (Standing.keeps_failed f).passes g.traced g.reported

/-- An exception is told, if it is the first one, and then it comes out of its statement. -/
theorem noteReported (e : Failure) : (exceptions ω).Follows c
    (noteFailure (fun f frame => .out f frame.traced) do
      Setting.report ⟨limits, clock, some (l.noting .event)⟩ e
      fail e : Action (Monitors (ω × List Sign)) Unit) := by
  intro m ready
  obtain ⟨stack, g, hg, -⟩ := ready.frame
  unfold Action.noteFailure
  rw [bind_apply]
  by_cases first : (e.isCatchable && !g.reported) = true
  · have unreported : g.reported = false := by
      rw [Bool.and_eq_true, Bool.not_eq_true'] at first
      exact first.2
    let heard := Setting.hear ⟨limits, clock, some (l.noting .event)⟩ g (stack.size + 1) .exception
      m.monitor
    have told : heard.2.host.2 = m.monitor.host.2 ++ _ :=
      hear_told limits clock l g (stack.size + 1) .exception (by decide) m.monitor
    -- the failure that comes out is the exception, or that of the listener to hear of it
    have passed (out : Failure) : (exceptions ω).Passes c m
        { m with
          stack := stack.push { g with reported := true }
          monitor := heard.2.addNote (.out out g.traced) } := by
      have passes :=
        Standing.passes_first g.traced (g.info (stack.size + 1)) heard.1 out
      rw [← unreported] at passes
      refine ⟨ready.functions, rfl, stack, g, g.line, true, hg, rfl, _, ?_, passes⟩
      exact (congrArg (· ++ [_]) told).trans (List.append_assoc ..)
    have top : (stack.push { g with reported := true }).back?.getD .top =
        { g with reported := true } := by rw [Array.back?_push, Option.getD_some]
    rcases Setting.report_first ⟨limits, clock, some (l.noting .event)⟩ hg first
      with h | ⟨text, h⟩ <;> rw [h]
    · change (exceptions ω).Passes c m { m with
        stack := stack.push { g with reported := true }
        monitor := Monitors.addNote _ (.out e ((stack.push _).back?.getD .top).traced) }
      rw [top]
      exact passed e
    · change (exceptions ω).Passes c m { m with
        stack := stack.push { g with reported := true }
        monitor := Monitors.addNote _ (.out _ ((stack.push _).back?.getD .top).traced) }
      rw [top]
      exact passed _
  · rw [Setting.report_later _ hg (Bool.not_eq_true _ ▸ first)]
    have passes : Standing.Passes g.traced g.reported g.reported [.out e g.traced] :=
      Standing.passes_out g.traced g.reported (Bool.not_eq_true _ ▸ first)
    refine ready.noted (fun f => .out e f.traced) fun stack' f hf => ?_
    obtain ⟨rfl, rfl⟩ := Array.push_eq_push.1 (hg.symm.trans hf)
    exact passes

/-- A statement, with what comes out of it. -/
theorem noteOut {x : Action (Monitors (ω × List Sign)) Unit} (hx : (exceptions ω).Follows c x) :
    (exceptions ω).Follows c (noteFailure (fun f frame => .out f frame.traced)
      (Setting.reporting ⟨limits, clock, some (l.noting .event)⟩ x)) := by
  have admits := exceptions_admits limits clock l
  rw [Setting.reporting, noteFailure_proceed]
  exact hx.proceed admits (.pure admits ()) fun f => noteReported limits clock l f

/-- A handler, from when it has caught its exception on. -/
theorem noteCaught {env : Setting (Monitors (ω × List Sign))} (admits : (exceptions ω).Admits env)
    (f : Failure) (name : Option String) {x : Action (Monitors (ω × List Sign)) Unit}
    (hx : (exceptions ω).Follows c x) :
    (exceptions ω).Follows c (do note (.caught ·.traced); Action.clause f name x) := by
  have forgotten : (exceptions ω).Follows c
      (do note (.caught ·.traced); modifyFrame ({ · with reported := false })) := by
    intro m ready
    obtain ⟨stack, g, hg, -⟩ := ready.frame
    have top : m.stack.back?.getD .top = g := by rw [hg, Array.back?_push, Option.getD_some]
    have mark : m.stack.modify (m.stack.size - 1) ({ · with reported := false }) =
        stack.push { g with reported := false } := by rw [hg, modify_push]
    refine ⟨ready.functions, rfl, stack, g, g.line, false, hg, mark, [.caught g.traced], ?_,
      Standing.passes_caught g.traced g.reported⟩
    exact congrArg (fun f : Frame => m.monitor.host.2 ++ [.caught f.traced]) top
  have free : ((exceptions ω).atStage fun _ _ => True).Follows c x := hx
  have handled := (whileHandling f (free.restage fun _ _ _ => trivial)).thenForget admits name
  exact forgotten.bind admits fun _ =>
    (((closed admits).steps c).bindCaught f name).bind admits fun _ => handled

end Follows

/-- All that is asked for keeps the rule for exceptions. -/
theorem exceptions_chronicle (n : Nat) :
    let env : Setting (Monitors (ω × List Sign)) := ⟨limits, clock, some (l.noting .event)⟩
    (exceptions ω).relation.Agree (env.chronicle n) (env.chronicle n) := by
  intro env
  have admits : (exceptions ω).Admits env := exceptions_admits limits clock l
  have steps := closed admits
  induction n with
  | zero => exact steps.unanswered fun c _ _ _ => (steps.steps c).unfinished
  | succ n ih =>
    constructor
    · exact fun known t => (steps.evaluation ih known t).noteFailed admits
    · exact fun known t => (steps.placement ih known t).noteFailed admits
    · intro c known t allowed
      cases t with
      | stmt s => exact (steps.performTold ih known allowed).noteOut limits clock l
      | clause f hd =>
        have body := ih.run known (.block hd.body) (Code.Owns.of_clause allowed)
        exact (Follows.noteCaught admits f hd.name body).noteFailed admits
      | block body => exact (steps.runBlock ih known allowed).noteFailed admits
      | whileRounds test body orelse p =>
        exact (steps.whileRounds ih known allowed).noteFailed admits
      | forRounds target items body orelse p =>
        obtain ⟨iter, owned⟩ := allowed
        exact (steps.forRounds ih known items owned).noteFailed admits
    · exact fun known b owned => (steps.runBlock ih known (.of_final owned)).noteFailed admits

end Protocol

/-! ### Runs and calls -/

/-- An exception event. -/
def Sign.tells : Sign → Bool
  | .heard ⟨_, .exception, _⟩ => true
  | _ => false

/-- An exception that comes out of a statement. -/
def Sign.comesOut : Sign → Bool
  | .out f _ => f.isCatchable
  | _ => false

namespace Interpreter

variable {i : Interpreter ω} {l : Listener (Monitors ω)}

open Standing

theorem exceptions_of_run (listening : i.listener = some l) (n : Nat) (μ : Monitors ω) :
    (i.chronicleRun n μ).Ends fun m => followAll [] m.monitor.notes = some [] := by
  obtain ⟨program, limits, clock, machine, listener⟩ := i
  obtain rfl : listener = some l := listening
  let m : Machine (Monitors (ω × List Sign)) := machine.withMonitor ⟨μ.tracers, (μ.host, [])⟩
  have run := Protocol.runWith_concludes (m := m) (Protocol.exceptions_admits limits clock l)
    (Protocol.exceptions_chronicle limits clock l n) program.script trivial trivial
    fun _ _ _ => trivial
  refine Ending.Ends.imp run.ends fun m' returned => ?_
  rcases returned.monitor with ⟨-, same⟩ | ⟨signs, told, keeps⟩
  · exact congrArg (fun ν : Monitors (ω × List Sign) => followAll [] ν.notes) same
  · exact (congrArg (followAll []) told).trans (keeps [] nofun)

theorem exceptions_of_call (listening : i.listener = some l) (n : Nat) (μ : Monitors ω)
    (name : String) (args : Edit (List Value)) :
    (i.chronicleCall n μ name args).Ends fun m => followAll [] m.monitor.notes = some [] := by
  obtain ⟨program, limits, clock, machine, listener⟩ := i
  obtain rfl : listener = some l := listening
  let m : Machine (Monitors (ω × List Sign)) :=
    { machine.withMonitor ⟨μ.tracers, (μ.host, [])⟩ with store := (args machine.store).2 }
  have call := Protocol.callGlobal_concludes (m := m) (Protocol.exceptions_admits limits clock l)
    (Protocol.exceptions_chronicle limits clock l n) program.script trivial trivial
    (fun _ _ _ => trivial) name (args machine.store).1
  refine Ending.Ends.imp call.ends fun m' answered => ?_
  obtain ⟨line, reported, signs, told, passes⟩ := answered.monitor
  exact (congrArg (followAll []) told).trans (passes [] nofun)

/-- Whatever a listener answers, in each activation that it hears of an exception is told when one
comes out of a statement for the first time since the activation began or last caught one, and only
then. -/
theorem exceptions_told (listening : i.listener = some l) :
    (∀ n μ, (i.chronicleRun n μ).plain =
        i.setting.runScript n i.program.script (i.machine.withMonitor μ) ∧
      (i.chronicleRun n μ).Ends fun m => followAll [] m.monitor.notes = some []) ∧
    ∀ n μ name args, (i.chronicleCall n μ name args).plain =
        (do let vs ← Action.edit args; i.setting.callGlobal n name vs) (i.machine.withMonitor μ) ∧
      (i.chronicleCall n μ name args).Ends fun m => followAll [] m.monitor.notes = some [] := by
  constructor
  · exact fun n μ => ⟨chronicleRun_plain i n μ, exceptions_of_run listening n μ⟩
  · exact fun n μ name args =>
      ⟨chronicleCall_plain i n μ name args, exceptions_of_call listening n μ name args⟩

/-- A division by zero, which nothing catches. -/
theorem exceptions_told_division :
    let division : Stmt :=
      .expr (.binary .floorDiv (.const (.int 1) .start) (.const (.int 0) .start) .start) .start
    let heedless : Listener (Monitors Unit) := ⟨fun _ _ s => (.ok .proceed, s)⟩
    let i : Interpreter Unit :=
      { (new ⟨"", ⟨[division]⟩⟩ .default .steady : Interpreter Unit) with
        listener := some heedless }
    (∃ f j ν, i.run 6 ⟨#[], ()⟩ = some (.error f, j, ν)) ∧
      (i.chronicleRun 6 ⟨#[], ()⟩).machine.monitor.notes.countP Sign.tells = 1 ∧
      (i.chronicleRun 6 ⟨#[], ()⟩).Ends fun m => followAll [] m.monitor.notes = some [] := by
  intro division heedless i
  have failing : ((i.run 6 ⟨#[], ()⟩).any fun r => !r.1.isOk) = true := by decide +kernel
  have once : (i.chronicleRun 6 ⟨#[], ()⟩).machine.monitor.notes.countP Sign.tells = 1 := by
    decide +kernel
  have listening : i.listener = some heedless := rfl
  -- the runs have been computed and are not to be computed again
  clear_value i
  refine ⟨?_, once, ((exceptions_told listening).1 6 ⟨#[], ()⟩).2⟩
  obtain ⟨⟨r, j, ν⟩, ended, failed⟩ := (Option.any_eq_true _ _).1 failing
  cases r with
  | ok a => cases failed
  | error f => exact ⟨f, j, ν, ended⟩

/-- A loop in which a finally block throws away an exception in each of two rounds: only the first
of them is told. -/
theorem exception_untold :
    let division : Stmt :=
      .expr (.binary .floorDiv (.const (.int 1) .start) (.const (.int 0) .start) .start) .start
    let rounds : Stmt :=
      .forLoop (.name "x" .start) (.list [.const (.int 1) .start, .const (.int 2) .start] .start)
        [.tryBlock [division] [] [] [.cont .start] .start] [] .start
    let heedless : Listener (Monitors Unit) := ⟨fun _ _ s => (.ok .proceed, s)⟩
    let i : Interpreter Unit :=
      { (new ⟨"", ⟨[rounds]⟩⟩ .default .steady : Interpreter Unit) with
        listener := some heedless }
    let signs := (i.chronicleRun 12 ⟨#[], ()⟩).machine.monitor.notes
    (∃ j ν, i.run 12 ⟨#[], ()⟩ = some (.ok (), j, ν)) ∧
      signs.countP Sign.comesOut = 2 ∧ signs.countP Sign.tells = 1 := by
  intro division rounds heedless i signs
  refine ⟨?_, by decide +kernel, by decide +kernel⟩
  have well : ((i.run 12 ⟨#[], ()⟩).any fun r => r.1.isOk) = true := by decide +kernel
  obtain ⟨⟨r, j, ν⟩, ended, ok⟩ := (Option.any_eq_true _ _).1 well
  cases r with
  | ok a => exact ⟨j, ν, ended⟩
  | error f => cases ok

end Interpreter

end

end Footprint
