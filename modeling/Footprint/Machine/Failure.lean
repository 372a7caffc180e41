import Footprint.Machine.Time
import Footprint.Value.Fault

set_option autoImplicit false

/-!
How running a script can fail. Exceptions belong to the script, which may catch them; no except
clause catches any other failure.
-/

namespace Footprint

inductive Failure where
  | exception (kind message : String) (pos : Position)
  | listener (message : String) (pos : Position)
  | deadline (missed : Overrun)
  | unsupported (message : String) (pos : Position)
  | noSuchFunction (name : String)
  deriving DecidableEq

namespace Failure

/-- What a fault at a position leads to. -/
def ofFault (f : Fault) (p : Position) : Failure :=
  match f.kind? with
  | some kind => exception kind f.message p
  | none => unsupported f.message p

def isCatchable : Failure → Bool
  | exception .. => true
  | _ => false

def kind? : Failure → Option String
  | exception kind _ _ => some kind
  | _ => none

def pos? : Failure → Option Position
  | exception _ _ p | listener _ p | deadline ⟨_, p⟩ | unsupported _ p => some p
  | noSuchFunction _ => none

def message : Failure → String
  | exception kind text p => s!"{kind}: {text} (line {p.line})"
  | listener text p => s!"Trace sink failed at line {p.line}: {text}"
  | deadline ⟨ms, p⟩ => s!"Execution deadline of {durationText ms} exceeded at line {p.line}"
  | unsupported text p => s!"Unsupported operation: {text} at line {p.line}"
  | noSuchFunction name => s!"No function named '{name}'"

end Failure

end Footprint
