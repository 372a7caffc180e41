import Footprint.Session.Interpreter
import Footprint.Trace.Listing
import Footprint.Trace.Recorder

set_option autoImplicit false

/-!
Sessions: some interpreters and tracers and the recorders that have been installed, and the steps a
host takes on them. Tracers are entered and left in pairs, around the steps taken in between. A
recorder goes by a number of the host's choice; installing another one under the same number begins
a new record.
-/

namespace Footprint

/-- The recorders of a session, and which of them a number stands for. -/
structure Recorders where
  all : Array Recorder
  current : List (Nat × Nat)

namespace Recorders

def empty : Recorders := ⟨#[], []⟩

def index? (r : Recorders) (number : Nat) : Option Nat := r.current.lookup number

def add (r : Recorders) (number : Nat) (policy : Policy) : Recorders :=
  ⟨r.all.push (.new policy), (number, r.all.size) :: r.current⟩

end Recorders

def recorderListener (index : Nat) : Listener (Monitors Recorders) where
  hear frame e
    | ⟨tracers, ⟨all, current⟩⟩ =>
      let answer :=
        match all[index]? with
        | some r => r.answer frame e
        | none => .ok .proceed
      (answer, ⟨tracers, ⟨all.modify index (·.record frame e), current⟩⟩)

structure Session where
  interpreters : Array (Interpreter Recorders)
  monitors : Monitors Recorders

inductive Step where
  | bind (interpreter : Nat) (name : String) (value : Datum)
  | run (interpreter : Nat)
  | call (interpreter : Nat) (name : String) (args : List Datum)
  | global (interpreter : Nat) (name : String)
  | output (interpreter : Nat)
  | limits (interpreter : Nat)
  | install (interpreter recorder : Nat) (policy : Policy)
  | uninstall (interpreter : Nat)
  | isListening (interpreter : Nat)
  /-- Asks for the events recorded since the last time. -/
  | events (recorder : Nat)
  | exclude (tracer : Nat) (code : CodeId)
  | tracer (tracer : Nat)
  | listing (interpreter tracer : Nat)
  | registry (interpreter : Nat) (names : List String)
  /-- Takes steps while a tracer is entered on an interpreter. -/
  | within (interpreter tracer : Nat) (steps : List Step)

inductive Reply where
  | done
  | failed (f : Failure)
  | value (v : Option Shown)
  | output (o : Output)
  | limits (l : Limits)
  /-- A listener had been installed before. -/
  | replaced (b : Bool)
  /-- A listener has been taken away. -/
  | uninstalled (b : Bool)
  | isListening (b : Bool)
  | events (es : Option (List (FrameInfo × Event)))
  | tracer (t : Tracer)
  | listing (text : String)
  | registry (r : Registry) (names : List String)
  | within (replies : List Reply)
  | refused (e : TracerError)
  /-- There is no such interpreter or tracer. -/
  | absent

/-- What comes of a step; nothing if it does not end. -/
abbrev Taken := Option (Reply × Session)

namespace Session

/-- A session with programs that have not run and so many idle tracers. -/
def start (programs : List (Program × Limits)) (tracers : Nat) : Session where
  interpreters := (programs.map fun p => .new p.1 p.2 .steady).toArray
  monitors := ⟨Array.replicate tracers .new, .empty⟩

def reply (s : Session) (r : Reply) : Taken := some (r, s)

/-- Acts on an interpreter, if there is one at the index. -/
def onInterpreter (s : Session) (i : Nat) (f : Interpreter Recorders → Taken) : Taken :=
  match s.interpreters[i]? with
  | some interpreter => f interpreter
  | none => s.reply .absent

/-- Acts on a tracer, if there is one at the index. -/
def onTracer (s : Session) (t : Nat) (f : Tracer → Taken) : Taken :=
  match s.monitors.tracers[t]? with
  | some tracer => f tracer
  | none => s.reply .absent

/-- Puts an interpreter in place of the one at the index. -/
def setInterpreter (s : Session) (i : Nat) (interpreter : Interpreter Recorders) : Session :=
  { s with interpreters := s.interpreters.setIfInBounds i interpreter }

/-- Puts a tracer in place of the one at the index. -/
def setTracer (s : Session) (t : Nat) (tracer : Tracer) : Session :=
  { s with monitors.tracers := s.monitors.tracers.setIfInBounds t tracer }

/-- Puts the listener from before a tracer was entered back in its place and ends the
tracer's use. -/
def leave (s : Session) (i t : Nat) (prior : Option (Listener (Monitors Recorders))) : Session :=
  { s with
    interpreters := s.interpreters.modify i (·.leave prior)
    monitors.tracers := s.monitors.tracers.modify t (·.leave) }

mutual

/-- Takes a step. Runs may take `n` steps of the machine. -/
def take (n : Nat) : Step → Session → Taken
  | .bind i name value, s => s.onInterpreter i fun interpreter =>
    (s.setInterpreter i (interpreter.bind name value.make)).reply .done
  | .run i, s => s.onInterpreter i fun interpreter => do
    let (result, interpreter, monitors) ← interpreter.run n s.monitors
    let s := { s.setInterpreter i interpreter with monitors }
    match result with
    | .ok _ => s.reply .done
    | .error f => s.reply (.failed f)
  | .call i name args, s => s.onInterpreter i fun interpreter => do
    let (result, interpreter, monitors) ← interpreter.call n s.monitors name (Datum.makeAll args)
    let s := { s.setInterpreter i interpreter with monitors }
    match result with
    | .ok v => s.reply (.value (some (interpreter.machine.store.shown v)))
    | .error f => s.reply (.failed f)
  | .global i name, s => s.onInterpreter i fun interpreter =>
    s.reply (.value (interpreter.global name))
  | .output i, s => s.onInterpreter i fun interpreter =>
    s.reply (.output interpreter.machine.output)
  | .limits i, s => s.onInterpreter i fun interpreter => s.reply (.limits interpreter.limits)
  | .install i number policy, s => s.onInterpreter i fun interpreter =>
    let listener := recorderListener s.monitors.host.all.size
    let s := { s with monitors.host := s.monitors.host.add number policy }
    let s := s.setInterpreter i { interpreter with listener := some listener }
    s.reply (.replaced interpreter.listener.isSome)
  | .uninstall i, s => s.onInterpreter i fun interpreter =>
    (s.setInterpreter i { interpreter with listener := none }).reply
      (.uninstalled interpreter.listener.isSome)
  | .isListening i, s => s.onInterpreter i fun interpreter =>
    s.reply (.isListening interpreter.listener.isSome)
  | .events number, s =>
    let host := s.monitors.host
    match host.index? number with
    | none => s.reply (.events none)
    | some index =>
      let events := (host.all[index]?.map (·.events.toList)).getD []
      let all := host.all.modify index (·.clear)
      { s with monitors.host.all := all }.reply (.events (some events))
  | .exclude t code, s => s.onTracer t fun tracer =>
    (s.setTracer t (tracer.exclude code)).reply .done
  | .tracer t, s => s.onTracer t fun tracer => s.reply (.tracer tracer)
  | .listing i t, s => s.onInterpreter i fun interpreter => s.onTracer t fun tracer =>
    s.reply (.listing (interpreter.program.listing tracer.coverage))
  | .registry i names, s => s.onInterpreter i fun interpreter =>
    s.reply (.registry interpreter.program.registry names)
  | .within i t steps, s => s.onInterpreter i fun interpreter => s.onTracer t fun tracer =>
    match tracer.enter with
    | .error e => s.reply (.refused e)
    | .ok tracer => do
      let s := (s.setTracer t tracer).setInterpreter i (interpreter.enter t)
      let (replies, s) ← takeAll n steps s
      (s.leave i t interpreter.listener).reply (.within replies)

def takeAll (n : Nat) : List Step → Session → Option (List Reply × Session)
  | [], s => some ([], s)
  | step :: steps, s => do
    let (reply, s) ← take n step s
    let (replies, s) ← takeAll n steps s
    return (reply :: replies, s)

end

end Session

end Footprint
