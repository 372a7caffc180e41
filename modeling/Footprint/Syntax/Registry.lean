import Footprint.Syntax.Node

set_option autoImplicit false

/-!
Where the definitions of a script stand in its source. A name that is defined more than once, at any
depth, is ambiguous and has no span.
-/

namespace Footprint

/-- The lines from `first` to `last`, both included. -/
structure Span where
  first : Nat
  last : Nat
  deriving DecidableEq

def Span.lines (s : Span) : List Nat := List.range' s.first (s.last + 1 - s.first)

/-- The span of a definition with its header at `p`: from its first decorator to its last line. -/
def Span.ofDefinition (decorators : List Expr) (p : Position) (endLine : Nat) : Span :=
  ⟨decorators.foldl (fun n d => min n d.pos.line) p.line, max endLine p.line⟩

def Node.definition? : Node → Option (String × Span)
  | .stmt (.function h _) => some (h.name, .ofDefinition h.decorators h.pos h.endLine)
  | .stmt (.classDef h _) => some (h.name, .ofDefinition h.decorators h.pos h.endLine)
  | _ => none

/-- The definitions of a script, outer ones before inner ones. -/
structure Registry where
  entries : List (String × Span)

namespace Registry

def ofScript (s : Script) : Registry := ⟨(Node.script s).walk.filterMap Node.definition?⟩

def spans (r : Registry) (name : String) : List Span :=
  r.entries.filterMap fun e => if e.1 = name then some e.2 else none

/-- The span of a name that is defined once. -/
def resolve? (r : Registry) (name : String) : Option Span :=
  match r.spans name with
  | [s] => some s
  | _ => none

def isAmbiguous (r : Registry) (name : String) : Bool := 1 < (r.spans name).length

def size (r : Registry) : Nat := (r.entries.map Prod.fst).eraseDups.length

def isEmpty (r : Registry) : Bool := r.entries.isEmpty

end Registry

end Footprint
