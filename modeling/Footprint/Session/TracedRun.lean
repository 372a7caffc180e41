import Footprint.Session.Interpreter

set_option autoImplicit false

/-!
One run of a program in a tracer of its own.
-/

namespace Footprint

/-- A run that has ended, with the interpreter and the tracer as they were then. -/
structure TracedRun where
  result : Except Failure Unit
  interpreter : Interpreter Unit
  tracer : Tracer

/-- Runs a program with some globals on a new interpreter, in a new tracer. -/
def Program.trace (p : Program) (limits : Limits) (steps : Nat)
    (globals : List (String × Datum)) : Option TracedRun := do
  let fresh : Interpreter Unit := .new p limits .steady
  let bound := globals.foldl (fun i g => i.bind g.1 g.2.make) fresh
  let tracer : Tracer := { Tracer.new with phase := .active }
  let (result, i, monitors) ← (bound.enter 0).run steps ⟨#[tracer], ()⟩
  return ⟨result, i.leave none, (monitors.tracers[0]?.getD tracer).leave⟩

end Footprint
