import Footprint.Batch.Input
import Footprint.Session.TracedRun
import Footprint.Trace.Listing
import Footprint.Trace.Summary

set_option autoImplicit false

/-!
Measuring a script on inputs: for each input one traced run on an interpreter of its own, with the
value of the input bound to a global name. A failing input does not keep the others from being run.
-/

namespace Footprint

structure BatchOptions where
  /-- The extension of the inputs in a directory. -/
  extension : String
  /-- The name that the value of an input is bound to. -/
  inputName : String
  limits : Limits
  /-- Reports have a listing. -/
  listing : Bool

def BatchOptions.default : BatchOptions := ⟨"in", "input_value", .default, false⟩

/-- A script that has been read, and how it is to be run. -/
structure Measured where
  path : String
  program : Program
  options : BatchOptions

structure Report where
  value : Int64
  coverage : Coverage
  output : List String
  /-- The number of statements of the script. -/
  statements : Nat
  listing : Option String

def Report.summary (r : Report) : String := r.coverage.summary r.statements

structure Outcome where
  path : String
  result : Except BatchError Report

def Outcome.isFailure (o : Outcome) : Bool := !o.result.isOk

namespace Measured

/-- Runs the script with a value; nothing comes of a run that does not end. -/
def report (s : Measured) (steps : Nat) (path : String) (value : Int64) :
    Option (Except BatchError Report) := do
  let run ← s.program.trace s.options.limits steps [(s.options.inputName, .int value)]
  match run.result with
  | .error f => return .error (.failed path f)
  | .ok _ =>
    let coverage := run.tracer.coverage
    let listing := if s.options.listing then some (s.program.listing coverage) else none
    let output := run.interpreter.machine.output.texts
    return .ok ⟨value, coverage, output, s.program.statements, listing⟩

variable {m : Type → Type} [Monad m]

def load (fs : Files m) (path : String) (options : BatchOptions) :
    m (Except BatchError Measured) := do
  match ← fs.text path with
  | .error e => return .error (.unreadable path e)
  | .ok text =>
    match Program.ofSource text with
    | .ok p => return .ok ⟨path, p, options⟩
    | .error e => return .error (.unparsable path e)

def outcome (s : Measured) (fs : Files m) (steps : Nat) (path : String) : m (Option Outcome) := do
  match ← fs.value path with
  | .error e => return some ⟨path, .error e⟩
  | .ok value => return (s.report steps path value).map (⟨path, ·⟩)

def outcomes (s : Measured) (fs : Files m) (steps : Nat) :
    List String → m (Option (List Outcome))
  | [] => return some []
  | path :: paths => do
    match ← s.outcome fs steps path with
    | none => return none
    | some o => return (← s.outcomes fs steps paths).map (o :: ·)

end Measured

end Footprint
