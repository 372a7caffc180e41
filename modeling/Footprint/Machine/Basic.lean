import Footprint.Machine.Failure
import Footprint.Machine.Frame
import Footprint.Machine.Output
import Footprint.Store.Builtin

set_option autoImplicit false

/-!
The machine that runs scripts: its state, how a computation on it can end, and the steps that all
computations are made of. A computation may also be unfinished: it has used up the number of steps
it was given, or it will never end.
-/

namespace Footprint

structure Limits where
  /-- The number of frames at which no further one is begun. -/
  maxDepth : Nat
  /-- The time for a run in milliseconds. -/
  deadline : Option Nat
  deriving DecidableEq

/-- A thousand frames and no deadline. -/
def Limits.default : Limits := ⟨1000, none⟩

/-- What does not change during a run. -/
structure Setting (σ : Type) where
  limits : Limits
  clock : Clock
  listener : Option (Listener σ)

/-- A jump under way: statements are skipped until it has arrived. -/
inductive Jump where
  | none | brk | cont | ret
  deriving DecidableEq

structure Machine (σ : Type) where
  store : Store
  /-- The frames, innermost last. -/
  stack : Array Frame
  output : Output
  /-- The exceptions whose handlers are running, innermost first. -/
  handling : List Failure
  /-- Where the run stands, as failures and printed lines say. -/
  pos : Position
  jump : Jump
  /-- The value that a return is to give. -/
  returned : Value
  timer : Timer
  /-- The state of the listener. -/
  monitor : σ

def Machine.initial {σ : Type} (monitor : σ) : Machine σ :=
  ⟨.initial, #[], .empty, [], .start, .none, .none, .new, monitor⟩

/-- How a computation ends, and with which machine. -/
inductive Ending (σ α : Type) where
  | done (a : α) (m : Machine σ)
  | failed (f : Failure) (m : Machine σ)
  | unfinished (m : Machine σ)

/-- The machine as far as a computation has come. -/
def Ending.machine {σ α : Type} : Ending σ α → Machine σ
  | done _ m | failed _ m | unfinished m => m

/-- The computation has ended with such a machine, if it has ended. -/
def Ending.Ends {σ α : Type} (Q : Machine σ → Prop) : Ending σ α → Prop
  | done _ m | failed _ m => Q m
  | unfinished _ => True

def Action (σ α : Type) := Machine σ → Ending σ α

namespace Action

variable {σ α β : Type}

@[always_inline, inline]
protected def pure (a : α) : Action σ α := fun m => .done a m

@[always_inline, inline]
protected def bind (x : Action σ α) (f : α → Action σ β) : Action σ β := fun m =>
  match x m with
  | .done a m => f a m
  | .failed e m => .failed e m
  | .unfinished m => .unfinished m

@[always_inline]
instance : Monad (Action σ) where
  pure := Action.pure
  bind := Action.bind

@[simp] theorem pure_apply (a : α) (m : Machine σ) : (pure a : Action σ α) m = .done a m := rfl

@[simp] theorem bind_apply (x : Action σ α) (f : α → Action σ β) (m : Machine σ) :
    (x >>= f) m =
      match x m with
      | .done a m => f a m
      | .failed e m => .failed e m
      | .unfinished m => .unfinished m := rfl

theorem discard_apply (x : Action σ α) (m : Machine σ) :
    (discard x : Action σ Unit) m =
      match x m with
      | .done _ m => .done () m
      | .failed e m => .failed e m
      | .unfinished m => .unfinished m := by
  change (x >>= fun _ => pure ()) m = _
  rw [bind_apply]
  cases x m <;> rfl

/-! ### Reading -/

/-- What reading the store comes to: a value, a failure, or nothing if it does not end. -/
@[inline] def observe (f : Store → Option (Except Failure α)) : Action σ α := fun m =>
  match f m.store with
  | some (.ok a) => .done a m
  | some (.error e) => .failed e m
  | none => .unfinished m

/-- Has not ended and is not going to. -/
@[inline] def unfinished : Action σ α := observe fun _ => none

@[inline] def fail (f : Failure) : Action σ α := observe fun _ => some (.error f)

@[inline] def raiseAt (f : Fault) (p : Position) : Action σ α := fail (.ofFault f p)

/-- The value of an attempt on the store, or its fault at a position. -/
@[inline] def attemptAt (p : Position) (f : Store → Attempt α) : Action σ α :=
  observe fun s => (f s).run.map (·.mapError (.ofFault · p))

/-- The value of what is read off the store, or its fault at a position. -/
@[inline] def readAt (p : Position) (f : Store → Except Fault α) : Action σ α :=
  observe fun s => some ((f s).mapError (.ofFault · p))

/-- The value of a pure computation, or its fault at a position. -/
@[inline] def lift (p : Position) (x : Except Fault α) : Action σ α := readAt p fun _ => x

@[inline] def read (f : Store → α) : Action σ α := observe fun s => some (.ok (f s))

/-- The value of what may not end. -/
@[inline] def await (x : Option α) : Action σ α := observe fun _ => x.map .ok

/-! ### Changing the store -/

@[inline] def edit (e : Edit α) : Action σ α := fun m =>
  let s := m.store
  let m := { m with store := default }
  match e s with
  | (a, s) => .done a { m with store := s }

theorem edit_apply (e : Edit α) (m : Machine σ) :
    edit e m = .done (e m.store).1 { m with store := (e m.store).2 } := rfl

/-- Changes the store as decided on by reading it, or fails for a fault at a position. -/
@[inline] def editAt (p : Position) (plan : Store → Except Fault (Edit α)) : Action σ α := fun m =>
  match plan m.store with
  | .ok e => edit e m
  | .error f => .failed (.ofFault f p) m

/-! ### Places -/

@[inline] def getPos : Action σ Position := fun m => .done m.pos m

@[inline] def setPos (p : Position) : Action σ Unit := fun m => .done () { m with pos := p }

/-- Runs a computation and stands at a position afterwards, however it ended. -/
@[inline] def backAt (p : Position) (x : Action σ α) : Action σ α := fun m =>
  match x m with
  | .done a m => .done a { m with pos := p }
  | .failed f m => .failed f { m with pos := p }
  | .unfinished m => .unfinished m

/-- Writes a text to the output, from the line where the run stands. -/
@[inline] def write (text : String) : Action σ Unit := fun m =>
  .done () { m with output := m.output.write text m.pos.line }

/-! ### Frames -/

@[inline] def modifyFrame (f : Frame → Frame) : Action σ Unit := fun m =>
  .done () { m with stack := m.stack.modify (m.stack.size - 1) f }

/-- The current frame; before the first one, that of top-level code. -/
@[inline] def frame : Action σ Frame := fun m => .done (m.stack.back?.getD .top) m

@[inline] def push (f : Frame) : Action σ Unit := fun m =>
  .done () { m with stack := m.stack.push f }

@[inline] def pop : Action σ Unit := fun m => .done () { m with stack := m.stack.pop }

end Action

/-- The lines told for a statement: those of its decorators and its own. Declarations tell none. -/
def Stmt.toldLines (s : Stmt) : List Nat :=
  if s.isDeclaration then [] else s.decorators.map (·.pos.line) ++ [s.pos.line]

/-! ### Events -/

namespace Setting

variable {σ : Type}

open Footprint.Action

/-- Tells the listener an event of the current frame and gives its answer. -/
def ask (env : Setting σ) (e : Event) : Action σ Control := fun m =>
  match env.listener, m.stack.back? with
  | some l, some frame =>
    if e = .call || frame.traced then
      match m with
      | ⟨store, stack, output, handling, pos, jump, returned, timer, monitor⟩ =>
        match l.hear (frame.info stack.size) e monitor with
        | (.ok c, monitor) =>
          .done c ⟨store, stack, output, handling, pos, jump, returned, timer, monitor⟩
        | (.error text, monitor) =>
          .failed (.listener text pos)
            ⟨store, stack, output, handling, pos, jump, returned, timer, monitor⟩
    else .done .proceed m
  | _, _ => .done .proceed m

theorem ask_apply (env : Setting σ) (e : Event) (m : Machine σ) :
    env.ask e m =
      match env.listener, m.stack.back? with
      | some l, some frame =>
        if e = .call || frame.traced then
          match l.hear (frame.info m.stack.size) e m.monitor with
          | (.ok c, monitor) => .done c { m with monitor }
          | (.error text, monitor) => .failed (.listener text m.pos) { m with monitor }
        else .done .proceed m
      | _, _ => .done .proceed m := rfl

/-- Tells the listener an event of the current frame, whatever it answers. -/
@[inline] def tell (env : Setting σ) (e : Event) : Action σ Unit := discard (env.ask e)

theorem tell_apply (env : Setting σ) (e : Event) (m : Machine σ) :
    env.tell e m =
      match env.ask e m with
      | .done _ m => .done () m
      | .failed f m => .failed f m
      | .unfinished m => .unfinished m := by
  rw [tell, discard_apply]
  cases env.ask e m <;> rfl

@[inline] def startTimer (env : Setting σ) : Action σ Unit := fun m =>
  .done () { m with timer := m.timer.start env.clock }

/-- Fails if the run has taken longer than it may. -/
def checkDeadline (env : Setting σ) : Action σ Unit := fun m =>
  match env.limits.deadline with
  | none => .done () m
  | some ms =>
    let late := m.timer.isOver env.clock ms
    let m := { m with timer := m.timer.next }
    if late then .failed (.deadline ⟨ms, m.pos⟩) m else .done () m

theorem checkDeadline_apply (env : Setting σ) (m : Machine σ) :
    ∃ timer, env.checkDeadline m = .done () { m with timer } ∨
      ∃ missed, env.checkDeadline m = .failed (.deadline missed) { m with timer } := by
  unfold checkDeadline
  split
  · exact ⟨m.timer, .inl rfl⟩
  · dsimp only
    split
    · exact ⟨m.timer.next, .inr ⟨_, rfl⟩⟩
    · exact ⟨m.timer.next, .inl rfl⟩

def markLine (env : Setting σ) (line : Nat) : Action σ Unit := do
  env.checkDeadline
  modifyFrame ({ · with line })
  env.tell .line

def markLines (env : Setting σ) : List Nat → Action σ Unit
  | [] => return ()
  | n :: ns => do
    env.markLine n
    env.markLines ns

/-- Tells an exception that comes out of a statement, once in each frame it passes through. -/
def report (env : Setting σ) (f : Failure) : Action σ Unit := do
  let frame ← frame
  if f.isCatchable && !frame.reported then
    modifyFrame ({ · with reported := true })
    env.tell .exception
  else return ()

end Setting

end Footprint
