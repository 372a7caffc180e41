import Footprint.Trace.Event

set_option autoImplicit false

/-!
Recorders write down each event they hear. A recorder may also ask for no more events of some
functions' frames, or fail at some event.
-/

namespace Footprint

/-- A failure at the `nth` event of a kind. -/
structure PlannedFailure where
  event : Event
  nth : Nat
  message : String

structure Policy where
  /-- The functions from whose frames the recorder detaches. -/
  detached : List String
  failure : Option PlannedFailure

/-- The answer to an event, the `count`th of its kind if that is the kind to fail at. -/
def Policy.answer (p : Policy) (count : Nat) (frame : FrameInfo) (e : Event) :
    Except String Control :=
  match p.failure.filter fun f => f.event = e && f.nth = count with
  | some f => .error f.message
  | none => .ok (if e = .call && p.detached.contains frame.function then .detach else .proceed)

structure Recorder where
  policy : Policy
  /-- The number of events heard of the kind to fail at. -/
  counted : Nat
  events : Array (FrameInfo × Event)

namespace Recorder

def new (policy : Policy) : Recorder := ⟨policy, 0, #[]⟩

instance : Inhabited Recorder := ⟨new ⟨[], none⟩⟩

/-- The number of events of the kind to fail at, one more of kind `e` included. -/
def countAfter (r : Recorder) (e : Event) : Nat :=
  if r.policy.failure.any (·.event = e) then r.counted + 1 else r.counted

def answer (r : Recorder) (frame : FrameInfo) (e : Event) : Except String Control :=
  r.policy.answer (r.countAfter e) frame e

def record (r : Recorder) (frame : FrameInfo) (e : Event) : Recorder :=
  { r with counted := r.countAfter e, events := r.events.push (frame, e) }

/-- Forgets the events written down, but not how many there were. -/
def clear (r : Recorder) : Recorder := { r with events := #[] }

end Recorder

end Footprint
