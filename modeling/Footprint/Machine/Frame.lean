import Footprint.Store.Basic
import Footprint.Trace.Event
import Footprint.Value.ExceptionType
import Footprint.Value.Fault

set_option autoImplicit false

/-!
Frames, the activations of code objects, and how names are resolved in them. Top-level code uses the
global scope, a function a scope of its own, a class body the scope of its attributes. Functions
defined in a class body do not see its names.
-/

namespace Footprint

def globalScope : ScopeRef := ⟨0⟩

/-- A store with the global scope and nothing else. -/
def Store.initial : Store := (Store.newScope none .empty).2

def topName : String := "<module>"

inductive FrameKind where
  | top
  | function (f : Function) (locals : ScopeRef)
  | classBody (scope : ScopeRef)

/-- The scope that functions defined in a frame are defined in. -/
def Store.closure? (s : Store) : FrameKind → Option ScopeRef
  | .top => none
  | .function _ locals => some locals
  | .classBody scope => s.parent scope

structure Frame where
  name : String
  code : CodeId
  line : Nat
  kind : FrameKind
  /-- Events of the frame other than its call are told. -/
  traced : Bool
  /-- The exception on its way has been told in this frame. -/
  reported : Bool

namespace Frame

def start (name : String) (code : CodeId) (line : Nat) (kind : FrameKind) : Frame :=
  ⟨name, code, line, kind, true, false⟩

def top : Frame := start topName topCode 1 .top

def ofFunction (f : Function) (locals : ScopeRef) : Frame :=
  start f.head.name f.head.code f.head.pos.line (.function f locals)

def ofClass (head : ClassHead) (scope : ScopeRef) : Frame :=
  start head.name head.code head.pos.line (.classBody scope)

/-- The frame from which a function is called when no script code runs. -/
def host : Frame := { start topName topCode 0 .top with traced := false }

/-- The scope that functions defined in the frame are defined in. -/
def closure? (s : Store) (f : Frame) : Option ScopeRef := s.closure? f.kind

def info (f : Frame) (depth : Nat) : FrameInfo := ⟨f.name, f.code, f.line, depth⟩

end Frame

/-- The value of a name that no scope binds: a built-in function or an exception class. -/
def builtin? (name : String) : Option Value :=
  match Builtin.ofName? name with
  | some b => some (.builtin b)
  | none => if exceptionTypes.any (·.1 == name) then some (.exceptionType name) else none

namespace Store

/-- The value of a name that is neither local nor bound around the place of its use. -/
def globalValue (s : Store) (name : String) : Except Fault Value :=
  match s.get? globalScope name with
  | some v => .ok v
  | none =>
    match builtin? name with
    | some v => .ok v
    | none => .error (.undefinedName name)

/-- The value of a name used in a frame. -/
def resolve (s : Store) (kind : FrameKind) (name : String) : Except Fault Value :=
  match kind with
  | .top => s.globalValue name
  | .function f locals =>
    if f.head.bound.locals.contains name then
      match s.get? locals name with
      | some v => .ok v
      | none => .error (.unboundLocal name)
    else if f.head.bound.globals.contains name then s.globalValue name
    else
      match s.lookup? locals name with
      | some v => .ok v
      | none => s.globalValue name
  | .classBody scope =>
    match s.lookup? scope name with
    | some v => .ok v
    | none => s.globalValue name

/-- The scope of a nonlocal name: the nearest one around the function that binds it, or else the one
right around the function. -/
def nonlocalScope (s : Store) (locals : ScopeRef) (name : String) : Except Fault ScopeRef :=
  match s.owner? locals name with
  | some r => .ok r
  | none =>
    match s.parent locals with
    | some r => .ok r
    | none => .error (.noNonlocal name)

/-- The scope in which a frame binds and unbinds a name. -/
def bindingScope (s : Store) (kind : FrameKind) (name : String) : Except Fault ScopeRef :=
  match kind with
  | .top => .ok globalScope
  | .function f locals =>
    if f.head.bound.globals.contains name then .ok globalScope
    else if f.head.bound.nonlocals.contains name then s.nonlocalScope locals name
    else .ok locals
  | .classBody scope => .ok scope

def assign (s : Store) (kind : FrameKind) (name : String) (value : Value) :
    Except Fault (Edit Unit) :=
  match s.bindingScope kind name with
  | .ok r => .ok (.update (·.set r name value))
  | .error f => .error f

def unassign (s : Store) (kind : FrameKind) (name : String) : Except Fault (Edit Unit) :=
  match s.bindingScope kind name with
  | .ok r =>
    if (s.get? r name).isSome then .ok (.update (·.erase r name)) else .error (.undefinedName name)
  | .error f => .error f

end Store

end Footprint
