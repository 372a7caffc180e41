import Footprint.Trace.Coverage
import Footprint.Trace.Event

set_option autoImplicit false

/-!
Tracers record the lines that are executed while they are active. A tracer is used once: it is idle,
then active, then finished. As a listener it goes on to tell each event to the listener that was
there before it, and it keeps all frames traced, whatever that one answers.
-/

namespace Footprint

inductive Phase where
  | idle | active | finished
  deriving DecidableEq

structure Tracer where
  phase : Phase
  /-- The executed lines in order. -/
  log : Array LineHit
  /-- The code objects whose lines are not recorded. -/
  excluded : List CodeId

inductive TracerError where
  | alreadyActive | alreadyUsed
  deriving DecidableEq

def TracerError.message : TracerError → String
  | alreadyActive => "tracer is already active"
  | alreadyUsed => "tracer has already finished a run"

namespace Tracer

/-- A tracer that has not been used and excludes nothing. -/
def new : Tracer := ⟨.idle, #[], []⟩

instance : Inhabited Tracer := ⟨new⟩

def enter (t : Tracer) : Except TracerError Tracer :=
  match t.phase with
  | .idle => .ok { t with phase := .active }
  | .active => .error .alreadyActive
  | .finished => .error .alreadyUsed

def leave (t : Tracer) : Tracer := { t with phase := .finished }

def exclude (t : Tracer) (code : CodeId) : Tracer := { t with excluded := code :: t.excluded }

def hear (t : Tracer) (frame : FrameInfo) (e : Event) : Tracer :=
  if e = .line && !t.excluded.contains frame.code then
    { t with log := t.log.push ⟨frame.function, frame.line⟩ }
  else t

def coverage (t : Tracer) : Coverage := .ofList t.log.toList

end Tracer

/-- Tracers, and the state of the listener that is none of them. -/
structure Monitors (ω : Type) where
  tracers : Array Tracer
  host : ω

/-- The listener that is the tracer at an index, `prior` being the listener before it. -/
def tracerListener {ω : Type} (index : Nat) (prior : Option (Listener (Monitors ω))) :
    Listener (Monitors ω) where
  hear frame e
    | ⟨tracers, host⟩ =>
      let monitors : Monitors ω := ⟨tracers.modify index (·.hear frame e), host⟩
      match prior with
      | none => (.ok .proceed, monitors)
      | some p =>
        match p.hear frame e monitors with
        | (.ok _, monitors) => (.ok .proceed, monitors)
        | (.error text, monitors) => (.error text, monitors)

end Footprint
