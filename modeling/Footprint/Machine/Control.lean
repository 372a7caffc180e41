import Footprint.Machine.Basic

set_option autoImplicit false

/-!
The structured parts of which running is made: jumps and where they arrive, except clauses and
finally blocks, and frames.
-/

namespace Footprint

/-- Unbinds a name in the current frame if it is bound there. -/
def Machine.forget {σ : Type} (m : Machine σ) (name : String) : Machine σ :=
  match m.store.unassign (m.stack.back?.getD .top).kind name with
  | .ok e =>
    let s := m.store
    let m := { m with store := default }
    { m with store := (e s).2 }
  | .error _ => m

theorem Machine.forget_eq {σ : Type} (m : Machine σ) (name : String) :
    m.forget name =
      match m.store.unassign (m.stack.back?.getD .top).kind name with
      | .ok e => { m with store := (e m.store).2 }
      | .error _ => m := rfl

namespace Action

variable {σ α : Type}

@[inline] def frameKind : Action σ FrameKind := fun m => .done (m.stack.back?.getD .top).kind m

def store (name : String) (v : Value) : Action σ Unit := do
  let k ← frameKind
  let p ← getPos
  editAt p (·.assign k name v)

def unbind (name : String) : Action σ Unit := do
  let k ← frameKind
  let p ← getPos
  editAt p (·.unassign k name)

/-! ### Jumps -/

@[inline] def setJump (j : Jump) : Action σ Unit := fun m => .done () { m with jump := j }

@[inline] def giveBack (v : Value) : Action σ Unit := fun m =>
  .done () { m with jump := .ret, returned := v }

/-- The value that ends the body of a frame: the one that is returned, if there is one. -/
@[inline] def result : Action σ Value
  | ⟨store, stack, output, handling, pos, jump, returned, timer, monitor⟩ =>
    if jump = .ret then
      .done returned ⟨store, stack, output, handling, pos, jump, .none, timer, monitor⟩
    else .done .none ⟨store, stack, output, handling, pos, jump, returned, timer, monitor⟩

theorem result_apply (m : Machine σ) :
    result m =
      if m.jump = .ret then .done m.returned { m with returned := .none } else .done .none m := rfl

/-- After `x` goes on with `y`, unless a jump is under way, and with `h` if `x` has failed. -/
@[inline] def proceed (x y : Action σ Unit) (h : Failure → Action σ Unit) : Action σ Unit :=
  fun m =>
    match x m with
    | .done _ m => if m.jump = .none then y m else .done () m
    | .failed f m => h f m
    | .unfinished m => .unfinished m

/-- A round of a loop: jumps to its next round and to its end arrive here. -/
@[inline] def round (body again : Action σ Unit) : Action σ Unit := fun m =>
  match body m with
  | .done _ m =>
    match m.jump with
    | .none => again m
    | .cont => again { m with jump := .none }
    | .brk => .done () { m with jump := .none }
    | .ret => .done () m
  | ending => ending

/-- Runs a finally block with the jump under way put aside; that jump and `pending` stand if the
block ends normally. -/
@[inline] def putAside (final : Action σ Unit) (pending : Machine σ → Ending σ Unit) : Action σ Unit
  | ⟨store, stack, output, handling, pos, jump, returned, timer, monitor⟩ =>
    match final ⟨store, stack, output, handling, pos, .none, .none, timer, monitor⟩ with
    | .done _ m => if m.jump = .none then pending { m with jump, returned } else .done () m
    | ending => ending

theorem putAside_apply (final : Action σ Unit) (pending : Machine σ → Ending σ Unit)
    (m : Machine σ) :
    putAside final pending m =
      match final { m with jump := .none, returned := .none } with
      | .done _ m' =>
        if m'.jump = .none then pending { m' with jump := m.jump, returned := m.returned }
        else .done () m'
      | ending => ending := rfl

/-- Runs a finally block after `x` has ended in some way. -/
@[inline] def lastly (x final : Action σ Unit) : Action σ Unit := fun m =>
  match x m with
  | .done _ m => putAside final (.done ()) m
  | .failed f m => putAside final (.failed f) m
  | .unfinished m => .unfinished m

/-! ### Except clauses -/

@[inline] def reraise (p : Position) : Action σ Unit := fun m =>
  match m.handling with
  | f :: _ => .failed f m
  | [] => raiseAt .nothingToReraise p m

/-- Binds the exception to the name of an except clause, if it has one. -/
def bindCaught (f : Failure) (name : Option String) : Action σ Unit :=
  match name, f with
  | some name, .exception kind message _ => do
    let v ← edit (Store.newException kind message)
    store name v
  | _, _ => return ()

/-- Runs `x` while an exception is being handled. -/
@[inline] def whileHandling (f : Failure) (x : Action σ Unit) : Action σ Unit := fun m =>
  match x { m with handling := f :: m.handling } with
  | .done _ m => .done () { m with handling := m.handling.tail }
  | .failed e m => .failed e { m with handling := m.handling.tail }
  | .unfinished m => .unfinished m

/-- Unbinds the name of an except clause, if it has one, when the clause ends. -/
@[inline] def thenForget (name : Option String) (x : Action σ Unit) : Action σ Unit :=
  match name with
  | none => x
  | some name => fun m =>
    match x m with
    | .done _ m => .done () (m.forget name)
    | .failed e m => .failed e (m.forget name)
    | .unfinished m => .unfinished m

/-- Runs an except clause with the given body: the exception is bound to its name and is the one
being handled until the clause ends, and then the name is unbound. -/
@[inline] def clause (f : Failure) (name : Option String) (body : Action σ Unit) :
    Action σ Unit := do
  modifyFrame ({ · with reported := false })
  bindCaught f name
  thenForget name (whileHandling f body)

end Action

namespace Setting

variable {σ : Type}

open Footprint.Action

/-- Runs a statement; an exception that comes out of it is reported. -/
@[inline] def reporting (env : Setting σ) (x : Action σ Unit) : Action σ Unit :=
  proceed x (return ()) fun f => do
    env.report f
    fail f

/-! ### Frames -/

/-- Tells the call of a new frame, which may ask for no further events of the frame. -/
def announce (env : Setting σ) : Action σ Unit := do
  if (← env.ask .call) = .detach then modifyFrame ({ · with traced := false })
  else return ()

/-- Tells the header of a class when its body begins to run. -/
def markHeader (env : Setting σ) : Action σ Unit := do
  let f ← frame
  match f.kind with
  | .classBody _ => env.markLine f.line
  | _ => return ()

/-- Ends the frame on top of the stack: no jump leaves it, its return is told however its body has
ended, and it is taken off the stack. -/
@[inline] def finish (env : Setting σ) (ending : Ending σ Value) : Ending σ Value :=
  match ending with
  | .unfinished m => .unfinished m
  | .done v m =>
    match env.tell .ret { m with jump := .none } with
    | .done _ m => (do pop; return v) m
    | .failed f m => (do pop; fail f) m
    | .unfinished m => .unfinished m
  | .failed f m =>
    match env.tell .ret { m with jump := .none } with
    | .done _ m | .failed _ m => (do pop; fail f) m
    | .unfinished m => .unfinished m

/-- Runs a body in a new frame, if there may be one more. -/
@[inline] def inFrame (env : Setting σ) (frame : Frame) (body : Action σ Unit) : Action σ Value :=
  fun m =>
    if env.limits.maxDepth ≤ m.stack.size then raiseAt .recursionLimit m.pos m
    else
      env.finish <| (do
        push frame
        env.announce
        env.markHeader
        body
        result) m

end Setting

namespace Action

variable {σ : Type}

/-- Runs `x` in the frame of the host, which tells nothing. -/
@[inline] def inHostFrame (x : Action σ Value) : Action σ Value := fun m =>
  match x { m with stack := m.stack.push .host } with
  | .done v m => .done v { m with stack := m.stack.pop, jump := .none }
  | .failed f m => .failed f { m with stack := m.stack.pop, jump := .none }
  | .unfinished m => .unfinished m

end Action

end Footprint
