import Footprint.Machine.Run
import Footprint.Program
import Footprint.Store.Datum
import Footprint.Trace.Tracer

set_option autoImplicit false

/-!
Interpreters: a program with the machine it runs on and the place for one listener. Tracers are
entered on an interpreter and left again, which brings back the listener that was there before.
-/

namespace Footprint

/-- An interpreter whose listeners share the state of tracers and of a host. -/
structure Interpreter (ω : Type) where
  program : Program
  limits : Limits
  clock : Clock
  machine : Machine Unit
  listener : Option (Listener (Monitors ω))

namespace Interpreter

variable {ω α : Type}

def new (program : Program) (limits : Limits) (clock : Clock) : Interpreter ω :=
  ⟨program, limits, clock, .initial (), none⟩

def setting (i : Interpreter ω) : Setting (Monitors ω) := ⟨i.limits, i.clock, i.listener⟩

/-- Lets a computation of the host run on an interpreter. It gives nothing if it does not end. -/
def act (i : Interpreter ω) (monitors : Monitors ω)
    (x : Setting (Monitors ω) → Action (Monitors ω) α) :
    Option (Except Failure α × Interpreter ω × Monitors ω) :=
  match x i.setting (i.machine.withMonitor monitors) with
  | .done a m => some (.ok a, { i with machine := m.withMonitor () }, m.monitor)
  | .failed f m => some (.error f, { i with machine := m.withMonitor () }, m.monitor)
  | .unfinished _ => none

def bind (i : Interpreter ω) (name : String) (make : Edit Value) : Interpreter ω :=
  let (v, store) := make i.machine.store
  { i with machine := { i.machine with store := store.set globalScope name v } }

def run (i : Interpreter ω) (steps : Nat) (monitors : Monitors ω) :
    Option (Except Failure Unit × Interpreter ω × Monitors ω) :=
  i.act monitors (·.runScript steps i.program.script)

/-- Calls a global function by its name, with arguments made for the call. -/
def call (i : Interpreter ω) (steps : Nat) (monitors : Monitors ω) (name : String)
    (args : Edit (List Value)) : Option (Except Failure Value × Interpreter ω × Monitors ω) :=
  i.act monitors fun env => do
    let vs ← Action.edit args
    env.callGlobal steps name vs

def global (i : Interpreter ω) (name : String) : Option Shown :=
  (i.machine.global? name).map i.machine.store.shown

/-- Puts the tracer at an index in front of the listener. -/
def enter (i : Interpreter ω) (tracer : Nat) : Interpreter ω :=
  { i with listener := some (tracerListener tracer i.listener) }

/-- Puts back the listener from before a tracer was entered. -/
def leave (i : Interpreter ω) (prior : Option (Listener (Monitors ω))) : Interpreter ω :=
  { i with listener := prior }

end Interpreter

end Footprint
