import Footprint.Syntax.Tree

set_option autoImplicit false

/-!
What a run tells those who listen to it: in each frame a call, then lines and exceptions, then a
return.
-/

namespace Footprint

inductive Event where
  | call | line | ret | exception
  deriving DecidableEq

def Event.name : Event → String
  | call => "call" | line => "line" | ret => "return" | exception => "exception"

/-- The frame in which an event happens. -/
structure FrameInfo where
  function : String
  code : CodeId
  line : Nat
  /-- The number of frames, this one included. -/
  depth : Nat
  deriving DecidableEq

/-- The answer to an event. Only the answer to a call matters: `detach` asks for no further events
of its frame. -/
inductive Control where
  | proceed | detach
  deriving DecidableEq

/-- A listener with a state of type `σ`: it answers each event or fails with a message. -/
structure Listener (σ : Type) where
  hear : FrameInfo → Event → σ → Except String Control × σ

end Footprint
