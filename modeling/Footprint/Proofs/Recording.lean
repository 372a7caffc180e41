import Footprint.Proofs.Alike
import Footprint.Proofs.Protocol

set_option autoImplicit false

/-!
Recording what a listener hears, and what it answers, changes nothing of a run.
-/

namespace Footprint

section

variable {σ τ ω α : Type}

/-! ### Listeners that answer the same -/

/-- Machines that are the same but for the states of their listeners. -/
def Likeness.monitored (W : σ → τ → Prop) : Likeness σ τ := ⟨.whole, Eq, W⟩

theorem Machine.Alike.stack_eq {W : σ → τ → Prop} {m : Machine σ} {m' : Machine τ}
    (h : m.Alike (.monitored W) m') : m.stack = m'.stack := by
  have hmap := h.stack
  change m.stack.map id = m'.stack.map id at hmap
  rwa [Array.map_id, Array.map_id] at hmap

theorem Machine.Alike.withMonitor_eq {W : σ → τ → Prop} {m : Machine σ} {m' : Machine τ}
    (h : m.Alike (.monitored W) m') : m'.withMonitor () = m.withMonitor () := by
  have timer : m.timer = m'.timer := h.timer
  simp only [withMonitor, h.store, h.stack_eq, h.output, h.handling, h.pos, h.jump, h.returned,
    timer]

/-- Two settings with one clock whose listeners give the same answers. -/
theorem Setting.alike_of_hear {W : σ → τ → Prop} {env : Setting σ} {env' : Setting τ}
    (hlimits : env.limits = env'.limits) (hclock : env.clock = env'.clock)
    (heard : ∀ f d e s s', W s s' → (env.hear f d e s).1 = (env'.hear f d e s').1 ∧
      W (env.hear f d e s).2 (env'.hear f d e s').2) :
    env.Alike (.monitored W) env' := by
  have asked (e : Event) : Action.Alike (.monitored W) (env.ask e) (env'.ask e) := by
    rintro ⟨store, stack, output, handling, pos, jump, returned, timer, s⟩
      ⟨store', stack', output', handling', pos', jump', returned', timer', s'⟩ h
    obtain rfl : stack = stack' := h.stack_eq
    obtain rfl : pos = pos' := h.pos
    rw [ask_eq_hear, ask_eq_hear]
    dsimp only
    cases stack.back? with
    | none => exact .done _ h
    | some f =>
      obtain ⟨same, monitor⟩ := heard f stack.size e s s' h.monitor
      dsimp only
      cases ha : env.hear f stack.size e s with
      | mk answer t =>
        cases hb : env'.hear f stack.size e s' with
        | mk answer' t' =>
          rw [ha, hb] at same monitor
          obtain rfl : answer = answer' := same
          cases answer with
          | ok c => exact .done c { h with monitor := monitor }
          | error text => exact .failed _ { h with monitor := monitor }
  constructor
  · exact hlimits
  · rintro ⟨store, stack, output, handling, pos, jump, returned, timer, s⟩
      ⟨store', stack', output', handling', pos', jump', returned', timer', s'⟩ h
    obtain rfl : timer = timer' := h.timer
    simp only [startTimer, hclock]
    exact .done () { h with timer := rfl }
  · rintro ⟨store, stack, output, handling, pos, jump, returned, timer, s⟩
      ⟨store', stack', output', handling', pos', jump', returned', timer', s'⟩ h
    obtain rfl : pos = pos' := h.pos
    obtain rfl : timer = timer' := h.timer
    simp only [checkDeadline, hlimits, hclock]
    split
    · exact .done () h
    · split
      · exact .failed _ { h with timer := rfl }
      · exact .done () { h with timer := rfl }
  · exact fun e _ => (asked e).bind fun _ => .pure ()
  · apply (asked .call).bind
    intro answer
    split
    · exact .modifyFrame fun f g h => congrArg (fun f : Frame => { f with traced := false }) h
    · exact .pure ()

/-! ### Notes -/

/-- An event that has been told, and the answer to it. -/
structure Heard where
  frame : FrameInfo
  event : Event
  answer : Except String Control

variable {ε : Type}

/-- The state of a listener without the notes. -/
def Monitors.plain (ν : Monitors (ω × List ε)) : Monitors ω := ⟨ν.tracers, ν.host.1⟩

/-- The notes that have been taken. -/
def Monitors.notes (ν : Monitors (ω × List ε)) : List ε := ν.host.2

/-- The state with one more note. -/
def Monitors.addNote (ν : Monitors (ω × List ε)) (note : ε) : Monitors (ω × List ε) :=
  ⟨ν.tracers, (ν.host.1, ν.host.2 ++ [note])⟩

/-- The ending of a computation without the notes. -/
def Ending.plain : Ending (Monitors (ω × List ε)) α → Ending (Monitors ω) α
  | .done a m => .done a (m.withMonitor m.monitor.plain)
  | .failed f m => .failed f (m.withMonitor m.monitor.plain)
  | .unfinished m => .unfinished (m.withMonitor m.monitor.plain)

/-- Machines that are the same but for the notes. -/
def Likeness.noted (ω ε : Type) : Likeness (Monitors ω) (Monitors (ω × List ε)) :=
  .monitored fun μ ν => μ = ν.plain

theorem Machine.Alike.plain_eq {m : Machine (Monitors ω)} {m' : Machine (Monitors (ω × List ε))}
    (h : m.Alike (.noted ω ε) m') : m'.withMonitor m'.monitor.plain = m := by
  obtain ⟨store, stack, output, handling, pos, jump, returned, timer, μ⟩ := m
  have same : timer = m'.timer := h.timer
  have monitor : μ = m'.monitor.plain := h.monitor
  simp only [withMonitor, ← h.store, ← h.stack_eq, ← h.output, ← h.handling, ← h.pos, ← h.jump,
    ← h.returned, ← same, ← monitor]

theorem Ending.Alike.plain_eq {r : Ending (Monitors ω) α}
    {r' : Ending (Monitors (ω × List ε)) α} (h : r.Alike (.noted ω ε) r') : r'.plain = r := by
  cases h with
  | done a h => exact congrArg (Ending.done a) h.plain_eq
  | failed f h => exact congrArg (Ending.failed f) h.plain_eq
  | unfinished h => exact congrArg Ending.unfinished h.plain_eq

/-- The listener, with a note taken of each event and the answer to it. -/
def Listener.noting (note : FrameInfo → Event → Except String Control → ε)
    (l : Listener (Monitors ω)) : Listener (Monitors (ω × List ε)) where
  hear frame e μ :=
    let (answer, ν) := l.hear frame e μ.plain
    (answer, ⟨ν.tracers, (ν.host, μ.notes ++ [note frame e answer])⟩)

section

variable (note : FrameInfo → Event → Except String Control → ε) (limits : Limits) (clock : Clock)
  (l : Listener (Monitors ω)) {f : Frame} (d : Nat) (e : Event) (μ : Monitors (ω × List ε))

theorem hear_recorded (h : e = .call ∨ f.traced = true) :
    (Setting.hear ⟨limits, clock, some (l.noting note)⟩ f d e μ).2.host.2 = μ.host.2 ++
      [note (f.info d) e (Setting.hear ⟨limits, clock, some (l.noting note)⟩ f d e μ).1] := by
  have told : (e = .call || f.traced) = true := by simpa using h
  unfold Setting.hear
  dsimp only
  rw [if_pos told]
  rfl

theorem hear_untraced (h : e ≠ .call) (traced : f.traced = false) :
    (Setting.hear ⟨limits, clock, some (l.noting note)⟩ f d e μ).2 = μ := by
  unfold Setting.hear
  simp [h, traced]

end

namespace Interpreter

variable {i j : Interpreter ω} {μ ν : Monitors ω}

/-- The interpreter, with a note taken of each event that its listener hears. -/
def noting (note : FrameInfo → Event → Except String Control → ε) (i : Interpreter ω) :
    Interpreter (ω × List ε) :=
  { i with listener := i.listener.map (Listener.noting note) }

theorem alike_noting (note : FrameInfo → Event → Except String Control → ε) (i : Interpreter ω) :
    i.setting.Alike (.noted ω ε) (i.noting note).setting := by
  refine Setting.alike_of_hear rfl rfl fun f d e μ ν h => ?_
  unfold Setting.hear setting noting
  cases i.listener with
  | none => exact ⟨rfl, h⟩
  | some l =>
    dsimp only [Option.map_some]
    rw [h]
    split
    · exact ⟨rfl, rfl⟩
    · exact ⟨rfl, rfl⟩

/-- The machine of the interpreter before any note has been taken. -/
def unnoted (i : Interpreter ω) (μ : Monitors ω) : Machine (Monitors (ω × List ε)) :=
  i.machine.withMonitor ⟨μ.tracers, (μ.host, [])⟩

theorem unnoted_alike (i : Interpreter ω) (μ : Monitors ω) :
    (i.machine.withMonitor μ).Alike (.noted ω ε) (i.unnoted μ) :=
  ⟨rfl, rfl, rfl, rfl, rfl, rfl, rfl, rfl, rfl⟩

section

variable {env : Setting (Monitors (ω × List ε))} (alike : i.setting.Alike (.noted ω ε) env)
  {n : Nat} {d : Calls (Monitors (ω × List ε))}
  (agree : (Likeness.noted ω ε).relation.Agree (i.setting.calls n) d)
  {m : Machine (Monitors (ω × List ε))} (start : (i.machine.withMonitor μ).Alike (.noted ω ε) m)

include alike agree start

/-- Without its notes, a run in which they are taken is the run itself. -/
theorem plain_runWith : (env.runWith d i.program.script m).plain =
    i.setting.runScript n i.program.script (i.machine.withMonitor μ) :=
  (alike.runWith agree _ start).plain_eq

theorem plain_callWith (name : String) (args : Edit (List Value)) :
    ((do let vs ← Action.edit args; env.callWith d name vs) m).plain =
      (do let vs ← Action.edit args; i.setting.callGlobal n name vs) (i.machine.withMonitor μ) := by
  have call := (Action.Alike.edit args).bind fun vs => alike.callWith agree name vs
  exact (call start).plain_eq

end

/-- What a computation of the host comes to is the same when notes are taken, after those that have
been taken before. -/
theorem act_noting_after (note : FrameInfo → Event → Except String Control → ε) (taken : List ε)
    {r : Except Failure α} {x : Setting (Monitors ω) → Action (Monitors ω) α}
    {y : Setting (Monitors (ω × List ε)) → Action (Monitors (ω × List ε)) α}
    (hxy : ∀ env env', env.Alike (.noted ω ε) env' → Action.Alike (.noted ω ε) (x env) (y env'))
    (ended : i.act μ x = some (r, j, ν)) :
    ∃ notes, (i.noting note).act ⟨μ.tracers, (μ.host, taken)⟩ y =
      some (r, j.noting note, ⟨ν.tracers, (ν.host, notes)⟩) := by
  have start : (i.machine.withMonitor μ).Alike (.noted ω ε)
      ((i.noting note).machine.withMonitor ⟨μ.tracers, (μ.host, taken)⟩) :=
    ⟨rfl, rfl, rfl, rfl, rfl, rfl, rfl, rfl, rfl⟩
  have same := hxy _ _ (alike_noting note i) start
  have interpreter {n : Machine (Monitors ω)} {n' : Machine (Monitors (ω × List ε))}
      (hn : n.Alike (.noted ω ε) n') :
      ({ i.noting note with machine := n'.withMonitor () }, n'.monitor) =
        (noting note { i with machine := n.withMonitor () },
          (⟨n.monitor.tracers, (n.monitor.host, n'.monitor.notes)⟩ : Monitors (ω × List ε))) := by
    rw [hn.withMonitor_eq, hn.monitor]
    rfl
  unfold act at ended ⊢
  rcases same.cases with
    ⟨a, n, n', e, e', hn⟩ | ⟨f, n, n', e, e', hn⟩ | ⟨n, n', e, e', hn⟩
  · rw [e] at ended
    cases ended
    exact ⟨n'.monitor.notes, by simp only [e', interpreter hn]⟩
  · rw [e] at ended
    cases ended
    exact ⟨n'.monitor.notes, by simp only [e', interpreter hn]⟩
  · rw [e] at ended
    cases ended

/-- What a computation of the host comes to is the same when notes are taken. -/
theorem act_noting (note : FrameInfo → Event → Except String Control → ε) {r : Except Failure α}
    {x : Setting (Monitors ω) → Action (Monitors ω) α}
    {y : Setting (Monitors (ω × List ε)) → Action (Monitors (ω × List ε)) α}
    (hxy : ∀ env env', env.Alike (.noted ω ε) env' → Action.Alike (.noted ω ε) (x env) (y env'))
    (ended : i.act μ x = some (r, j, ν)) :
    ∃ notes, (i.noting note).act ⟨μ.tracers, (μ.host, [])⟩ y =
      some (r, j.noting note, ⟨ν.tracers, (ν.host, notes)⟩) :=
  act_noting_after note [] hxy ended

end Interpreter

end

end Footprint
