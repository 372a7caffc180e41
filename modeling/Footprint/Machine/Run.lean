import Footprint.Machine.Exec

set_option autoImplicit false

/-!
What a host may ask of a machine on which nothing runs: to run a script or to call a global
function.
-/

namespace Footprint

namespace Machine

variable {σ τ : Type}

def withMonitor (m : Machine σ) (monitor : τ) : Machine τ :=
  ⟨m.store, m.stack, m.output, m.handling, m.pos, m.jump, m.returned, m.timer, monitor⟩

def global? (m : Machine σ) (name : String) : Option Value := m.store.get? globalScope name

end Machine

namespace Store

/-- The value of a global name that a host may call: a function or a built-in function. -/
def callable? (s : Store) (name : String) : Option Value :=
  (s.get? globalScope name).filter fun
    | .function _ | .builtin _ => true
    | _ => false

end Store

namespace Setting

variable {σ : Type}

open Footprint.Action

/-- Runs a script from its first statement, given what answers requests. -/
def runWith (env : Setting σ) (c : Calls σ) (script : Script) : Action σ Unit := do
  env.startTimer
  setJump .none
  discard (env.inFrame .top (c.block script.body))

def runScript (env : Setting σ) (n : Nat) (script : Script) : Action σ Unit :=
  env.runWith (env.calls n) script

/-- Calls a global function by its name, given what answers requests. The frame below the call is
not traced. -/
def callWith (env : Setting σ) (c : Calls σ) (name : String) (args : List Value) :
    Action σ Value := do
  match ← read (·.callable? name) with
  | none => fail (.noSuchFunction name)
  | some callee =>
    env.startTimer
    inHostFrame do c.value (.call callee args (← getPos))

/-- Calls a global function by its name, with requests nested at most so deep. -/
def callGlobal (env : Setting σ) (n : Nat) (name : String) (args : List Value) :
    Action σ Value := env.callWith (env.calls n) name args

end Setting

/-- More steps than any run takes. -/
def ampleSteps : Nat := Nat.pow 2 62

end Footprint
