import Footprint.Proofs.Idle
import Footprint.Proofs.Recording
import Footprint.Session.Basic

set_option autoImplicit false

/-!
Tracers entered one inside the other. Each event that is told reaches all of them and then the
listener that was there before, once and in order; each tracer records the lines of the code objects
that it does not exclude, and leaving them brings the listener back.
-/

namespace Footprint

section

variable {ω α : Type}

/-! ### Tracers at several indices -/

theorem modify_eq_setIfInBounds {a : Array α} {k : Nat} {x : α} (h : a[k]? = some x) (g : α → α) :
    a.modify k g = a.setIfInBounds k (g x) := by
  apply Array.ext_getElem?
  intro k'
  rw [Array.getElem?_modify, Array.getElem?_setIfInBounds]
  by_cases same : k = k'
  · subst same
    rw [if_pos rfl, if_pos rfl, if_pos (Array.getElem?_eq_some_iff.1 h).1, h, Option.map_some]
  · rw [if_neg same, if_neg same]

namespace Monitors

/-- The monitors with the tracers at some indices changed, the last one first. -/
def update (μ : Monitors ω) (u : Tracer → Tracer) : List Nat → Monitors ω
  | [] => μ
  | t :: ts =>
    let ν := μ.update u ts
    ⟨ν.tracers.modify t u, ν.host⟩

variable (μ : Monitors ω) (u : Tracer → Tracer) {t : Nat} {ts : List Nat}

theorem update_host (ts : List Nat) : (μ.update u ts).host = μ.host := by
  induction ts with
  | nil => rfl
  | cons t ts ih => exact ih

theorem update_of_not_mem (h : t ∉ ts) : (μ.update u ts).tracers[t]? = μ.tracers[t]? := by
  induction ts with
  | nil => rfl
  | cons t' ts ih =>
    rw [List.mem_cons, not_or] at h
    dsimp only [update]
    rw [Array.getElem?_modify, if_neg (Ne.symm h.1), ih h.2]

theorem update_of_mem (distinct : ts.Nodup) (h : t ∈ ts) :
    (μ.update u ts).tracers[t]? = (μ.tracers[t]?).map u := by
  induction ts with
  | nil => cases h
  | cons t' ts ih =>
    obtain ⟨fresh, distinct⟩ := List.nodup_cons.1 distinct
    dsimp only [update]
    rw [Array.getElem?_modify]
    by_cases same : t' = t
    · subst same
      rw [if_pos rfl, μ.update_of_not_mem u fresh]
    · rw [if_neg same, ih distinct (List.mem_of_ne_of_mem (Ne.symm same) h)]

/-- It does not matter which tracer is changed first. -/
theorem update_first (t : Nat) (ts : List Nat) :
    (μ.update u [t]).update u ts = μ.update u (t :: ts) := by
  have swap (a : Array Tracer) (t t' : Nat) :
      (a.modify t u).modify t' u = (a.modify t' u).modify t u := by
    apply Array.ext_getElem?
    intro k
    simp only [Array.getElem?_modify]
    by_cases h : t = k <;> by_cases h' : t' = k <;> simp [h, h']
  induction ts with
  | nil => rfl
  | cons t' ts ih =>
    dsimp only [update] at ih ⊢
    rw [ih]
    dsimp only
    rw [swap]

end Monitors

/-! ### Chains of tracers -/

/-- The listener that tracers make of the one before them, the last one in front. -/
def chain (prior : Option (Listener (Monitors ω))) : List Nat → Option (Listener (Monitors ω))
  | [] => prior
  | t :: ts => chain (some (tracerListener t prior)) ts

/-- Tracers hear an event, the last one first. -/
def Monitors.record (μ : Monitors ω) (f : FrameInfo) (e : Event) (ts : List Nat) : Monitors ω :=
  μ.update (·.hear f e) ts

/-- With a tracer in front every frame stays traced, whatever the answer is. -/
def keepTraced (ts : List Nat) (answer : Except String Control) : Except String Control :=
  if ts.isEmpty then answer else answer.map fun _ => .proceed

/-- What comes of an event that tracers record and the listener behind them hears: the answer, and
the monitors afterwards. -/
def passOn (prior : Option (Listener (Monitors ω))) (ts : List Nat) (f : FrameInfo) (e : Event)
    (μ : Monitors ω) : Except String Control × Monitors ω :=
  match prior with
  | none => (.ok .proceed, μ.record f e ts)
  | some p =>
    let heard := p.hear f e (μ.record f e ts)
    (keepTraced ts heard.1, heard.2)

theorem tracerListener_hear (t : Nat) (p : Listener (Monitors ω)) (f : FrameInfo) (e : Event)
    (μ : Monitors ω) :
    let heard := p.hear f e (μ.record f e [t])
    (tracerListener t (some p)).hear f e μ = (keepTraced [t] heard.1, heard.2) := by
  dsimp only [tracerListener, Monitors.record, Monitors.update]
  rcases p.hear f e _ with ⟨answer | answer, ν⟩
  · rfl
  · rfl

/-- The first tracer belongs to the listener behind the other ones. -/
theorem passOn_cons (prior : Option (Listener (Monitors ω))) (t : Nat) (ts : List Nat)
    (f : FrameInfo) (e : Event) (μ : Monitors ω) :
    passOn prior (t :: ts) f e μ = passOn (some (tracerListener t prior)) ts f e μ := by
  have proceeds (answer : Except String Control) :
      keepTraced ts (keepTraced [t] answer) = keepTraced (t :: ts) answer := by
    cases answer <;> cases ts <;> rfl
  cases prior with
  | none =>
    have answer : Except.ok .proceed = keepTraced ts (.ok .proceed) := by cases ts <;> rfl
    exact Prod.ext answer rfl
  | some p =>
    dsimp only [passOn]
    rw [tracerListener_hear]
    exact Prod.ext (proceeds _).symm rfl

theorem chain_hear {prior : Option (Listener (Monitors ω))} {ts : List Nat}
    {l : Listener (Monitors ω)} (h : chain prior ts = some l) (f : FrameInfo) (e : Event)
    (μ : Monitors ω) : l.hear f e μ = passOn prior ts f e μ := by
  induction ts generalizing prior with
  | nil =>
    obtain rfl : prior = some l := h
    rfl
  | cons t ts ih => rw [passOn_cons, ih h]

/-- Events have reached the tracers and then the listener behind them, each once and in this order,
with the answers of that listener. -/
inductive Delivered (prior : Option (Listener (Monitors ω))) (ts : List Nat) (μ : Monitors ω) :
    List Heard → Monitors ω → Prop
  | nil : Delivered prior ts μ [] μ
  | snoc {fired : List Heard} {ν ξ : Monitors ω} {f : FrameInfo} {e : Event}
      {answer : Except String Control} : Delivered prior ts μ fired ν →
      passOn prior ts f e ν = (answer, ξ) → Delivered prior ts μ (fired ++ [⟨f, e, answer⟩]) ξ

/-! ### What tracers record -/

/-- The lines among the events, but for those of the excluded code objects. -/
def linesHeard (excluded : List CodeId) (fired : List Heard) : List LineHit :=
  (fired.filter fun h => h.event = .line && !excluded.contains h.frame.code).map fun h =>
    ⟨h.frame.function, h.frame.line⟩

theorem linesHeard_append (excluded : List CodeId) (fired more : List Heard) :
    linesHeard excluded (fired ++ more) =
      linesHeard excluded fired ++ linesHeard excluded more := by
  unfold linesHeard
  rw [List.filter_append, List.map_append]

/-- Excluding code objects is leaving out their events. -/
theorem linesHeard_eq_filter (excluded : List CodeId) (fired : List Heard) :
    linesHeard excluded fired =
      linesHeard [] (fired.filter fun h => !excluded.contains h.frame.code) := by
  unfold linesHeard
  rw [List.filter_filter]
  simp

theorem linesHeard_congr {excluded excluded' : List CodeId}
    (same : ∀ c, c ∈ excluded ↔ c ∈ excluded') (fired : List Heard) :
    linesHeard excluded fired = linesHeard excluded' fired := by
  have contains (c : CodeId) : excluded.contains c = excluded'.contains c := by
    rw [Bool.eq_iff_iff, List.contains_iff_mem, List.contains_iff_mem]
    exact same c
  unfold linesHeard
  simp only [contains]

/-- The tracer after it has heard events. -/
def Tracer.after (u : Tracer) (fired : List Heard) : Tracer :=
  { u with log := u.log ++ (linesHeard u.excluded fired).toArray }

theorem Tracer.after_snoc (u : Tracer) (fired : List Heard) (h : Heard) :
    u.after (fired ++ [h]) = (u.after fired).hear h.frame h.event := by
  unfold after hear
  rw [linesHeard_append]
  split
  · next heard =>
    simp only at heard
    simp only [linesHeard, List.filter_cons, heard]
    simp
  · next unheard =>
    simp only at unheard
    simp only [linesHeard, List.filter_cons, unheard]
    simp

/-- The listener leaves the tracers at some indices as they are. -/
def Listener.Spares (l : Listener (Monitors ω)) (ts : List Nat) : Prop :=
  ∀ f e μ, ∀ t ∈ ts, (l.hear f e μ).2.tracers[t]? = μ.tracers[t]?

section

variable {prior : Option (Listener (Monitors ω))} {ts : List Nat}

/-- A tracer spares the other ones. -/
theorem tracerListener_spares {index : Nat} (other : index ∉ ts)
    (h : ∀ p ∈ prior, p.Spares ts) : (tracerListener index prior).Spares ts := by
  rintro f e ⟨tracers, host⟩ t ht
  have apart : index ≠ t := fun same => other (same ▸ ht)
  have recorded : (tracers.modify index (·.hear f e))[t]? = tracers[t]? := by
    rw [Array.getElem?_modify, if_neg apart]
  unfold tracerListener
  cases prior with
  | none => exact recorded
  | some p =>
    have spared := h p rfl f e ⟨tracers.modify index (·.hear f e), host⟩ t ht
    dsimp only
    cases hp : p.hear f e ⟨tracers.modify index (·.hear f e), host⟩ with
    | mk answer ν =>
      rw [hp] at spared
      cases answer with
      | ok c => exact spared.trans recorded
      | error text => exact spared.trans recorded

variable (distinct : ts.Nodup) (spares : ∀ p ∈ prior, p.Spares ts)

include distinct spares

theorem passOn_tracers (f : FrameInfo) (e : Event) (μ : Monitors ω) {t : Nat} (h : t ∈ ts) :
    (passOn prior ts f e μ).2.tracers[t]? = (μ.tracers[t]?).map (·.hear f e) := by
  rw [← μ.update_of_mem (·.hear f e) distinct h]
  cases prior with
  | none => rfl
  | some p => exact spares p rfl f e _ t h

theorem Delivered.tracers {μ ξ : Monitors ω} {fired : List Heard}
    (delivered : Delivered prior ts μ fired ξ) {t : Nat} (h : t ∈ ts) :
    ξ.tracers[t]? = (μ.tracers[t]?).map (·.after fired) := by
  induction delivered with
  | nil =>
    have same : (Tracer.after · []) = id := by
      funext u
      simp [Tracer.after, linesHeard]
    rw [same, Option.map_id, id]
  | @snoc fired ν ξ f e answer _ passed ih =>
    have heard := passOn_tracers distinct spares f e ν h
    rw [passed, ih, Option.map_map] at heard
    rw [heard]
    congr 1
    funext u
    exact (u.after_snoc fired ⟨f, e, answer⟩).symm

end

/-! ### What is asked inside -/

/-- The monitors with notes. -/
def Monitors.withNotes {ε : Type} (μ : Monitors ω) (notes : List ε) : Monitors (ω × List ε) :=
  ⟨μ.tracers, (μ.host, notes)⟩

namespace Interpreter

/-- What a host asks of an interpreter without touching its listener. -/
inductive Request where
  | bind (name : String) (make : Edit Value)
  | run
  | call (name : String) (args : Edit (List Value))

/-- Does what is asked, whether or not it fails. It gives nothing if it does not end. -/
def serve (n : Nat) (i : Interpreter ω) (μ : Monitors ω) :
    Request → Option (Interpreter ω × Monitors ω)
  | .bind name make => some (i.bind name make, μ)
  | .run => (i.run n μ).map (·.2)
  | .call name args => (i.call n μ name args).map (·.2)

def serveAll (n : Nat) : List Request → Interpreter ω → Monitors ω →
    Option (Interpreter ω × Monitors ω)
  | [], i, μ => some (i, μ)
  | request :: requests, i, μ => do
    let (j, ν) ← i.serve n μ request
    serveAll n requests j ν

variable {i j : Interpreter ω} {μ ν : Monitors ω} {n : Nat}

theorem listener_act {x : Setting (Monitors ω) → Action (Monitors ω) α} {r : Except Failure α}
    (ended : i.act μ x = some (r, j, ν)) : j.listener = i.listener := by
  unfold act at ended
  split at ended
  · cases ended
    rfl
  · cases ended
    rfl
  · cases ended

theorem listener_serve {request : Request} (served : i.serve n μ request = some (j, ν)) :
    j.listener = i.listener := by
  cases request with
  | bind name make =>
    cases served
    rfl
  | run =>
    obtain ⟨⟨r, j, ν⟩, ended, same⟩ := Option.map_eq_some_iff.1 served
    cases same
    exact listener_act ended
  | call name args =>
    obtain ⟨⟨r, j, ν⟩, ended, same⟩ := Option.map_eq_some_iff.1 served
    cases same
    exact listener_act ended

theorem listener_serveAll {requests : List Request}
    (served : i.serveAll n requests μ = some (j, ν)) : j.listener = i.listener := by
  induction requests generalizing i μ with
  | nil =>
    cases served
    rfl
  | cons request requests ih =>
    obtain ⟨⟨k, ξ⟩, first, rest⟩ := Option.bind_eq_some_iff.1 served
    exact (ih rest).trans (listener_serve first)

section

variable {prior : Option (Listener (Monitors ω))} {ts : List Nat} {start : Monitors ω}

/-- The protocol of events that reach tracers and the listener behind them. -/
def delivering (prior : Option (Listener (Monitors ω))) (ts : List Nat) (start : Monitors ω) :
    Protocol (Monitors (ω × List Heard)) :=
  .preserving (fun _ => True) (fun _ _ => True) fun μ => Delivered prior ts start μ.notes μ.plain

variable (chained : i.listener = chain prior ts)

include chained

theorem delivering_hear : Protocol.KeptByHearing (i.noting .mk).setting (fun _ => True)
    (fun _ _ => True) fun μ => Delivered prior ts start μ.notes μ.plain := by
  intro f hs d e μ _ _ delivered
  unfold Setting.hear setting noting
  cases hl : i.listener with
  | none => exact delivered
  | some l =>
    dsimp only [Option.map_some]
    split
    · have heard := chain_hear (chained.symm.trans hl) (f.info d) e μ.plain
      exact delivered.snoc heard.symm
    · exact delivered

theorem delivering_admits : (delivering prior ts start).Admits (i.noting .mk).setting :=
  Protocol.preserving_admits (fun _ _ => trivial) (fun _ _ => trivial) (delivering_hear chained)

theorem delivering_calls (n : Nat) : (delivering prior ts start).relation.Agree
    ((i.noting .mk).setting.calls n) ((i.noting .mk).setting.calls n) :=
  Protocol.calls (delivering_admits chained)
    (Protocol.preserving_exceptions (delivering_hear chained)) (fun _ _ => trivial) n

omit chained in
theorem act_delivered {taken : List Heard} {r : Except Failure α}
    {x : Setting (Monitors ω) → Action (Monitors ω) α}
    {y : Setting (Monitors (ω × List Heard)) → Action (Monitors (ω × List Heard)) α}
    (hxy : ∀ env env', env.Alike (.noted ω Heard) env' →
      Action.Alike (.noted ω Heard) (x env) (y env'))
    (kept : let m := (y (i.noting .mk).setting (i.machine.withMonitor (μ.withNotes taken))).machine
      Delivered prior ts start m.monitor.notes m.monitor.plain)
    (ended : i.act μ x = some (r, j, ν)) :
    ∃ fired, (i.noting .mk).act (μ.withNotes taken) y = some (r, j.noting .mk, ν.withNotes fired) ∧
      Delivered prior ts start fired ν := by
  obtain ⟨fired, recorded⟩ := act_noting_after Heard.mk taken hxy ended
  obtain ⟨m, told, -, same⟩ := ends_of_act recorded (Ending.ends_of_machine
    (P := fun m => Delivered prior ts start m.monitor.notes m.monitor.plain) kept)
  rw [← same] at told
  exact ⟨fired, recorded, told⟩

theorem serve_delivered {taken : List Heard} (delivered : Delivered prior ts start taken μ)
    {request : Request} (served : i.serve n μ request = some (j, ν)) :
    ∃ fired, (i.noting .mk).serve n (μ.withNotes taken) request =
        some (j.noting .mk, ν.withNotes fired) ∧
      Delivered prior ts start fired ν := by
  cases request with
  | bind name make =>
    cases served
    exact ⟨taken, rfl, delivered⟩
  | run =>
    obtain ⟨⟨r, j, ν⟩, ended, same⟩ := Option.map_eq_some_iff.1 served
    cases same
    obtain ⟨fired, recorded, delivered⟩ := act_delivered
      (fun _ _ henv => henv.runScript n i.program.script)
      ((Protocol.runWith_concludes (m := i.machine.withMonitor (μ.withNotes taken))
        (delivering_admits chained) (delivering_calls chained n) i.program.script trivial trivial
        fun _ _ _ => trivial).preserved delivered) ended
    refine ⟨fired, ?_, delivered⟩
    exact Option.map_eq_some_iff.2 ⟨_, recorded, rfl⟩
  | call name args =>
    obtain ⟨⟨r, j, ν⟩, ended, same⟩ := Option.map_eq_some_iff.1 served
    cases same
    obtain ⟨fired, recorded, delivered⟩ := act_delivered
      (fun _ _ henv => (Action.Alike.edit args).bind fun vs => henv.callGlobal n name vs)
      ((Protocol.callGlobal_concludes
        (m := { i.machine.withMonitor (μ.withNotes taken) with store := (args i.machine.store).2 })
        (delivering_admits chained) (delivering_calls chained n) i.program.script trivial trivial
        (fun _ _ _ => trivial) name (args i.machine.store).1).preserved delivered) ended
    refine ⟨fired, ?_, delivered⟩
    exact Option.map_eq_some_iff.2 ⟨_, recorded, rfl⟩

omit chained in
theorem serveAll_delivered {taken : List Heard} {requests : List Request}
    (chained : i.listener = chain prior ts) (delivered : Delivered prior ts start taken μ)
    (served : i.serveAll n requests μ = some (j, ν)) :
    ∃ fired, (i.noting .mk).serveAll n requests (μ.withNotes taken) =
        some (j.noting .mk, ν.withNotes fired) ∧
      Delivered prior ts start fired ν := by
  induction requests generalizing i μ taken with
  | nil =>
    cases served
    exact ⟨taken, rfl, delivered⟩
  | cons request requests ih =>
    obtain ⟨⟨k, ξ⟩, first, rest⟩ := Option.bind_eq_some_iff.1 served
    obtain ⟨more, recorded, delivered⟩ := serve_delivered chained delivered first
    obtain ⟨fired, recorded', delivered⟩ := ih ((listener_serve first).trans chained) delivered rest
    refine ⟨fired, ?_, delivered⟩
    exact Option.bind_eq_some_iff.2 ⟨_, recorded, recorded'⟩

end

end Interpreter

/-! ### Scopes -/

theorem Tracer.enter_eq_ok {u : Tracer} (idle : u.phase = .idle) :
    u.enter = .ok { u with phase := .active } := by
  unfold enter
  rw [idle]

namespace Monitors

/-- Makes a tracer active, if there is one at the index that has not been used. -/
def enter? (μ : Monitors ω) (t : Nat) : Option (Monitors ω) := do
  let u ← μ.tracers[t]?
  match u.enter with
  | .ok u => some ⟨μ.tracers.setIfInBounds t u, μ.host⟩
  | .error _ => none

/-- The monitors with tracers made active. -/
def enterAll (μ : Monitors ω) (ts : List Nat) : Monitors ω :=
  μ.update ({ · with phase := .active }) ts

/-- The monitors after the use of tracers. -/
def leaveAll (μ : Monitors ω) (ts : List Nat) : Monitors ω := μ.update (·.leave) ts

/-- The tracers have not been used. -/
def Unused (μ : Monitors ω) (ts : List Nat) : Prop :=
  ∀ t ∈ ts, ∃ u, μ.tracers[t]? = some u ∧ u.phase = .idle

variable {μ : Monitors ω} {t : Nat} {ts : List Nat}

theorem enterAll_singleton {u : Tracer} (h : μ.tracers[t]? = some u) :
    μ.enterAll [t] = ⟨μ.tracers.setIfInBounds t { u with phase := .active }, μ.host⟩ := by
  dsimp only [enterAll, update]
  rw [modify_eq_setIfInBounds h]

theorem enter?_eq_some {u : Tracer} (h : μ.tracers[t]? = some u) (idle : u.phase = .idle) :
    μ.enter? t = some (μ.enterAll [t]) := by
  unfold enter?
  simp only [h, Option.bind_eq_bind, Option.bind_some, Tracer.enter_eq_ok idle,
    enterAll_singleton h]

theorem Unused.tail (h : μ.Unused (t :: ts)) (fresh : t ∉ ts) : (μ.enterAll [t]).Unused ts := by
  intro t' ht'
  obtain ⟨u, hu, idle⟩ := h t' (List.mem_cons_of_mem t ht')
  have apart : t' ∉ [t] := by
    rw [List.mem_singleton]
    rintro rfl
    exact fresh ht'
  exact ⟨u, (μ.update_of_not_mem _ apart).trans hu, idle⟩

end Monitors

namespace Interpreter

/-- The interpreter with tracers entered on it, in order. -/
def enterEach (i : Interpreter ω) : List Nat → Interpreter ω
  | [] => i
  | t :: ts => (i.enter t).enterEach ts

/-- Does what is asked while tracers are entered, in order and each inside the one before, and
leaves them again. It gives nothing if a tracer cannot be entered or if what is asked does not
end. -/
def serveWithin (n : Nat) (requests : List Request) :
    List Nat → Interpreter ω → Monitors ω → Option (Interpreter ω × Monitors ω)
  | [], i, μ => i.serveAll n requests μ
  | t :: ts, i, μ => do
    let ν ← μ.enter? t
    let (j, ξ) ← serveWithin n requests ts (i.enter t) ν
    return (j.leave i.listener, ξ.leaveAll [t])

variable {i j : Interpreter ω} {μ ν : Monitors ω} {ts : List Nat}

theorem listener_enterEach (i : Interpreter ω) (ts : List Nat) :
    (i.enterEach ts).listener = chain i.listener ts := by
  induction ts generalizing i with
  | nil => rfl
  | cons t ts ih => exact ih (i.enter t)

theorem serveWithin_eq (distinct : ts.Nodup) (unused : μ.Unused ts) (n : Nat)
    (requests : List Request) :
    i.serveWithin n requests ts μ = ((i.enterEach ts).serveAll n requests (μ.enterAll ts)).map
      fun r => (r.1.leave i.listener, r.2.leaveAll ts) := by
  induction ts generalizing i μ with
  | nil =>
    change i.serveAll n requests μ = (i.serveAll n requests μ).map _
    cases hr : i.serveAll n requests μ with
    | none => rfl
    | some r =>
      have same : r.1.listener = i.listener := listener_serveAll hr
      have left : r.1.leave i.listener = r.1 := by rw [leave, ← same]
      exact congrArg some (Prod.ext left.symm rfl)
  | cons t ts ih =>
    obtain ⟨fresh, distinct⟩ := List.nodup_cons.1 distinct
    obtain ⟨u, hu, idle⟩ := unused t List.mem_cons_self
    unfold serveWithin
    rw [Monitors.enter?_eq_some hu idle]
    simp only [Option.bind_eq_bind, Option.bind_some, ih distinct (unused.tail fresh)]
    have entered : (μ.enterAll [t]).enterAll ts = μ.enterAll (t :: ts) := μ.update_first _ t ts
    rw [entered, enterEach]
    cases ((i.enter t).enterEach ts).serveAll n requests (μ.enterAll (t :: ts)) with
    | none => rfl
    | some r => rfl

/-- Whatever a listener answers and whatever is asked while unused tracers are entered in front of
it, each inside the one before: the tracers can be entered and left; every event that is told
reaches all of them and then the listener, once and in order, also the event at which that one
fails; each tracer has recorded exactly the lines of the code objects that it does not exclude, so
that tracers which exclude the same have recorded the same; and the listener is in its place
again. -/
theorem tracers_compose (distinct : ts.Nodup) (unused : μ.Unused ts)
    (spares : ∀ p ∈ i.listener, p.Spares ts) (n : Nat) (requests : List Request) :
    (i.serveWithin n requests ts μ).isSome =
      ((i.enterEach ts).serveAll n requests (μ.enterAll ts)).isSome ∧
    ∀ k ξ, i.serveWithin n requests ts μ = some (k, ξ) →
      k.listener = i.listener ∧
      ∃ j ν fired, (i.enterEach ts).serveAll n requests (μ.enterAll ts) = some (j, ν) ∧
        ((i.enterEach ts).noting .mk).serveAll n requests ((μ.enterAll ts).withNotes []) =
          some (j.noting .mk, ν.withNotes fired) ∧
        Delivered i.listener ts (μ.enterAll ts) fired ν ∧
        ξ.host = ν.host ∧
        ∀ t ∈ ts, ∀ u, μ.tracers[t]? = some u →
          ξ.tracers[t]? = some { u with
            phase := .finished, log := u.log ++ (linesHeard u.excluded fired).toArray } ∧
          linesHeard u.excluded fired =
            linesHeard [] (fired.filter fun h => !u.excluded.contains h.frame.code) ∧
          ∀ t' ∈ ts, ∀ u', μ.tracers[t']? = some u' → (∀ c, c ∈ u.excluded ↔ c ∈ u'.excluded) →
            linesHeard u.excluded fired = linesHeard u'.excluded fired := by
  rw [serveWithin_eq distinct unused]
  constructor
  · exact Option.isSome_map
  · intro k ξ ended
    obtain ⟨⟨j, ν⟩, served, left⟩ := Option.map_eq_some_iff.1 ended
    obtain ⟨rfl, rfl⟩ := Prod.mk.inj left
    obtain ⟨fired, recorded, delivered⟩ :=
      serveAll_delivered (i.listener_enterEach ts) .nil served
    refine ⟨rfl, j, ν, fired, served, recorded, delivered, ν.update_host _ ts, ?_⟩
    intro t ht u hu
    refine ⟨?_, linesHeard_eq_filter _ _, fun t' _ u' _ same => linesHeard_congr same fired⟩
    rw [Monitors.leaveAll, ν.update_of_mem _ distinct ht, delivered.tracers distinct spares ht,
      Monitors.enterAll, μ.update_of_mem _ distinct ht, hu]
    rfl

/-- Two runs within two tracers, of which the second excludes the top level, in front of a third
one and a listener that asks for no further events and fails at each return. -/
theorem tracers_compose_failing :
    let host : Listener (Monitors Unit) :=
      ⟨fun _ e s => (if e = .ret then .error "stop" else .ok .detach, s)⟩
    let i : Interpreter Unit :=
      { (new ⟨"pass", ⟨[.pass .start]⟩⟩ .default .steady : Interpreter Unit) with
        listener := some (tracerListener 2 (some host)) }
    let μ : Monitors Unit :=
      ⟨#[.new, Tracer.new.exclude topCode, { Tracer.new with phase := .active }], ()⟩
    (∀ p ∈ i.listener, p.Spares [0, 1]) ∧
    ∃ k ξ fired, i.serveWithin 3 [.run, .run] [0, 1] μ = some (k, ξ) ∧
      k.listener = i.listener ∧
      ξ.tracers[0]? = some ⟨.finished, #[] ++ (linesHeard [] fired).toArray, []⟩ ∧
      ξ.tracers[1]? = some ⟨.finished, #[] ++ (linesHeard [topCode] fired).toArray, [topCode]⟩ := by
  intro host i μ
  have unused : μ.Unused [0, 1] := by
    intro t ht
    simp only [List.mem_cons, List.not_mem_nil, or_false] at ht
    rcases ht with rfl | rfl
    · exact ⟨_, rfl, rfl⟩
    · exact ⟨_, rfl, rfl⟩
  have spares : ∀ p ∈ i.listener, p.Spares [0, 1] := by
    intro p hp
    cases hp
    apply tracerListener_spares (by decide)
    intro p hp f e μ t _
    cases hp
    rfl
  obtain ⟨-, composed⟩ := tracers_compose (by decide : [0, 1].Nodup) unused spares 3 [.run, .run]
  obtain ⟨⟨k, ξ⟩, ended⟩ := Option.isSome_iff_exists.1
    (show (i.serveWithin 3 [.run, .run] [0, 1] μ).isSome = true by decide +kernel)
  obtain ⟨listener, j, ν, fired, -, -, -, -, recorded⟩ := composed k ξ ended
  refine ⟨spares, k, ξ, fired, ended, listener, ?_, ?_⟩
  · exact (recorded 0 (by decide) _ rfl).1
  · exact (recorded 1 (by decide) _ rfl).1

end Interpreter

/-! ### Sessions -/

namespace Session

/-- What a step asks of the interpreter at an index without touching its listener. -/
def request? (i : Nat) : Step → Option Interpreter.Request
  | .bind k name value => if k = i then some (.bind name value.make) else none
  | .run k => if k = i then some .run else none
  | .call k name args => if k = i then some (.call name (Datum.makeAll args)) else none
  | _ => none

/-- Steps that are taken within tracers entered in order. -/
def nest (i : Nat) (steps : List Step) : List Nat → List Step
  | [] => steps
  | t :: ts => [.within i t (nest i steps ts)]

/-- The session with another interpreter at an index, and other monitors. -/
def put (s : Session) (i : Nat) (r : Interpreter Recorders × Monitors Recorders) : Session :=
  { s.setInterpreter i r.1 with monitors := r.2 }

variable {s : Session} {i n : Nat} {interpreter : Interpreter Recorders} {ts : List Nat}

theorem interpreters_put (h : s.interpreters[i]? = some interpreter)
    (r : Interpreter Recorders × Monitors Recorders) :
    (s.put i r).interpreters[i]? = some r.1 :=
  Array.getElem?_setIfInBounds_self_of_lt (Array.getElem?_eq_some_iff.1 h).1

theorem put_put (r r' : Interpreter Recorders × Monitors Recorders) :
    (s.put i r).put i r' = s.put i r' := by
  unfold put setInterpreter
  simp only [Array.setIfInBounds_setIfInBounds]

theorem put_self (h : s.interpreters[i]? = some interpreter) :
    s.put i (interpreter, s.monitors) = s := by
  unfold put setInterpreter
  have same : s.interpreters.setIfInBounds i interpreter = s.interpreters := by
    rw [← id_eq (a := interpreter), ← modify_eq_setIfInBounds h id]
    apply Array.ext_getElem?
    intro k
    rw [Array.getElem?_modify, Option.map_id, id, ite_self]
  rw [same]

/-- Leaving a tracer puts an interpreter and monitors in place. -/
theorem leave_eq_put (h : s.interpreters[i]? = some interpreter) (t : Nat)
    (prior : Option (Listener (Monitors Recorders))) :
    s.leave i t prior = s.put i (interpreter.leave prior, s.monitors.leaveAll [t]) := by
  unfold leave put setInterpreter
  rw [modify_eq_setIfInBounds h]
  rfl

theorem takeAll_cons (step : Step) (steps : List Step) :
    (takeAll n (step :: steps) s).map (·.2) =
      ((take n step s).map (·.2)).bind fun s => (takeAll n steps s).map (·.2) := by
  rw [takeAll]
  cases take n step s with
  | none => rfl
  | some r =>
    simp only [Option.bind_eq_bind, Option.bind_some, Option.map_some]
    cases takeAll n steps r.2 <;> rfl

theorem take_request (h : s.interpreters[i]? = some interpreter) {step : Step}
    {request : Interpreter.Request} (asked : request? i step = some request) :
    (take n step s).map (·.2) = (interpreter.serve n s.monitors request).map (s.put i) := by
  cases step with
  | bind k name value =>
    obtain ⟨rfl, same⟩ := Option.ite_none_right_eq_some.1 asked
    cases same
    simp only [take, onInterpreter, h]
    rfl
  | run k =>
    obtain ⟨rfl, same⟩ := Option.ite_none_right_eq_some.1 asked
    cases same
    simp only [take, onInterpreter, h, Interpreter.serve]
    cases interpreter.run n s.monitors with
    | none => rfl
    | some r => cases hr : r.1 <;> simp [hr, put, reply]
  | call k name args =>
    obtain ⟨rfl, same⟩ := Option.ite_none_right_eq_some.1 asked
    cases same
    simp only [take, onInterpreter, h, Interpreter.serve]
    cases interpreter.call n s.monitors name (Datum.makeAll args) with
    | none => rfl
    | some r => cases hr : r.1 <;> simp [hr, put, reply]
  | _ => cases asked

theorem takeAll_requests (h : s.interpreters[i]? = some interpreter) {steps : List Step}
    {requests : List Interpreter.Request} (asked : steps.map (request? i) = requests.map some) :
    (takeAll n steps s).map (·.2) =
      (interpreter.serveAll n requests s.monitors).map (s.put i) := by
  induction steps generalizing s interpreter requests with
  | nil =>
    obtain rfl : requests = [] := by simpa using asked.symm
    simp [takeAll, Interpreter.serveAll, put_self h]
  | cons step steps ih =>
    cases requests with
    | nil => cases asked
    | cons request requests =>
      obtain ⟨first, rest⟩ := List.cons.inj asked
      rw [takeAll_cons, take_request h first, Interpreter.serveAll]
      cases interpreter.serve n s.monitors request with
      | none => rfl
      | some r =>
        simp only [Option.map_some, Option.bind_some, Option.bind_eq_bind]
        rw [ih (interpreters_put h r) rest]
        congr 1
        funext r'
        exact put_put r r'

/-- Taking steps within tracers, entered in order, is asking inside their scopes. -/
theorem takeAll_nest (h : s.interpreters[i]? = some interpreter) (distinct : ts.Nodup)
    (unused : s.monitors.Unused ts) {steps : List Step} {requests : List Interpreter.Request}
    (asked : steps.map (request? i) = requests.map some) :
    (takeAll n (nest i steps ts) s).map (·.2) =
      (interpreter.serveWithin n requests ts s.monitors).map (s.put i) := by
  induction ts generalizing s interpreter with
  | nil => exact takeAll_requests h asked
  | cons t ts ih =>
    obtain ⟨fresh, distinct⟩ := List.nodup_cons.1 distinct
    obtain ⟨u, hu, idle⟩ := unused t List.mem_cons_self
    let entered := s.put i (interpreter.enter t, s.monitors.enterAll [t])
    have at_i : entered.interpreters[i]? = some (interpreter.enter t) := interpreters_put h _
    have inside := ih at_i distinct (unused.tail fresh)
    have scope : take n (.within i t (nest i steps ts)) s = (do
        let r ← takeAll n (nest i steps ts) entered
        (r.2.leave i t interpreter.listener).reply (.within r.1)) := by
      have same : (s.setTracer t { u with phase := .active }).setInterpreter i
          (interpreter.enter t) = entered := by
        dsimp only [entered, put]
        rw [Monitors.enterAll_singleton hu]
        rfl
      simp only [take, onInterpreter, h, onTracer, hu, Tracer.enter_eq_ok idle, same]
    rw [nest, takeAll_cons, scope, Interpreter.serveWithin, Monitors.enter?_eq_some hu idle]
    simp only [Option.bind_eq_bind, Option.bind_some]
    change _ = Option.map (entered.put i) (Interpreter.serveWithin n requests ts _
      (s.monitors.enterAll [t])) at inside
    cases hr : Interpreter.serveWithin n requests ts (interpreter.enter t)
        (s.monitors.enterAll [t]) with
    | none =>
      rw [hr, Option.map_none, Option.map_eq_none_iff] at inside
      rw [inside]
      rfl
    | some r =>
      rw [hr, Option.map_some] at inside
      obtain ⟨⟨replies, s'⟩, taken, rfl⟩ := Option.map_eq_some_iff.1 inside
      have left : (entered.put i r).leave i t interpreter.listener =
          s.put i (r.1.leave interpreter.listener, r.2.leaveAll [t]) := by
        rw [leave_eq_put (interpreters_put at_i r), put_put]
        exact put_put _ _
      simp only [taken, Option.bind_some, reply, Option.map_some, takeAll, left]
      rfl

end Session

end

end Footprint
