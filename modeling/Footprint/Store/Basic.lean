import Footprint.Store.Bindings
import Footprint.Syntax.Binding

set_option autoImplicit false

/-!
The store: the lists, functions and scopes that values refer to, and the numbers given to objects.
Scopes form chains: the parent of a scope is older than the scope.
-/

namespace Footprint

structure Scope where
  vars : Bindings
  parent : Option ScopeRef

/-- A function as a definition has made it. -/
structure Closure where
  function : Function
  /-- The values of its last parameters' defaults. -/
  defaults : List Value
  /-- The scope it was defined in, unless that is the global one. -/
  scope : Option ScopeRef

structure Store where
  lists : Array (Array Value)
  functions : Array Closure
  scopes : Array Scope
  /-- The number of the next object. -/
  nextId : Nat

/-- A change of the store that gives something. Operations that may fail read the store first and
then give an edit, so a failing one changes nothing. -/
abbrev Edit (α : Type) := Store → α × Store

def Edit.update (f : Store → Store) : Edit Unit := fun s => ((), f s)

/-- A value that needs no change of the store. -/
def Edit.value (v : Value) : Edit Value := fun s => (v, s)

namespace Store

def empty : Store := ⟨#[], #[], #[], 0⟩

instance : Inhabited Store := ⟨empty⟩

/-! ### Lists and numbers -/

def items (s : Store) (r : ListRef) : Array Value := s.lists[r.index]?.getD #[]

def size (s : Store) (r : ListRef) : Nat := (s.items r).size

def newList (items : Array Value) : Edit Value := fun s =>
  (.list ⟨s.lists.size⟩, { s with lists := s.lists.push items })

def modifyList (s : Store) (r : ListRef) (f : Array Value → Array Value) : Store :=
  { s with lists := s.lists.modify r.index f }

theorem modifyList_eq (s : Store) (r : ListRef) (f : Array Value → Array Value) :
    s.modifyList r f = s.modifyList r fun _ => f (s.items r) := by
  unfold modifyList items
  congr 1
  apply Array.ext_getElem?
  intro i
  rw [Array.getElem?_modify, Array.getElem?_modify]
  by_cases same : r.index = i
  · rw [if_pos same, if_pos same, same]
    cases s.lists[i]? <;> rfl
  · rw [if_neg same, if_neg same]

theorem items_modifyList_self {s : Store} {r : ListRef} (inside : r.index < s.lists.size)
    (f : Array Value → Array Value) : (s.modifyList r f).items r = f (s.items r) := by
  simp [items, modifyList, Array.getElem_modify, inside]

theorem items_modifyList_of_ne {s : Store} {r q : ListRef} (h : q ≠ r)
    (f : Array Value → Array Value) : (s.modifyList r f).items q = s.items q := by
  have other : r.index ≠ q.index := by
    intro same
    cases q
    cases r
    exact h (congrArg _ same.symm)
  simp [items, modifyList, Array.getElem?_modify, other]

def newTuple (items : List Value) : Edit Value := fun s =>
  (.tuple s.nextId items, { s with nextId := s.nextId + 1 })

def newException (kind message : String) : Edit Value := fun s =>
  (.exception s.nextId kind message, { s with nextId := s.nextId + 1 })

/-! ### Functions -/

/-- A new function. -/
def newFunction (c : Closure) : Edit Value := fun s =>
  (.function ⟨s.functions.size⟩, { s with functions := s.functions.push c })

def function? (s : Store) (r : FunctionRef) : Option Closure := s.functions[r.index]?

def functionName (s : Store) (r : FunctionRef) : String :=
  ((s.function? r).map (·.function.head.name)).getD ""

/-! ### Scopes -/

def newScope (parent : Option ScopeRef) : Edit ScopeRef := fun s =>
  (⟨s.scopes.size⟩, { s with scopes := s.scopes.push ⟨[], parent⟩ })

def vars (s : Store) (r : ScopeRef) : Bindings := ((s.scopes[r.index]?).map Scope.vars).getD []

def parent (s : Store) (r : ScopeRef) : Option ScopeRef := s.scopes[r.index]?.bind Scope.parent

def get? (s : Store) (r : ScopeRef) (name : String) : Option Value := (s.vars r).get? name

def set (s : Store) (r : ScopeRef) (name : String) (value : Value) : Store :=
  { s with scopes := s.scopes.modify r.index fun sc => { sc with vars := sc.vars.set name value } }

def erase (s : Store) (r : ScopeRef) (name : String) : Store :=
  { s with scopes := s.scopes.modify r.index fun sc => { sc with vars := sc.vars.erase name } }

def ancestors (s : Store) (r : ScopeRef) : List ScopeRef :=
  match s.parent r with
  | some p => if p.index < r.index then p :: s.ancestors p else []
  | none => []
termination_by r.index

/-- The value of a name in a scope or, failing that, in the nearest scope around it that
binds it. -/
def lookup? (s : Store) (r : ScopeRef) (name : String) : Option Value :=
  (r :: s.ancestors r).findSome? fun a => s.get? a name

/-- The nearest scope around a scope that binds a name. -/
def owner? (s : Store) (r : ScopeRef) (name : String) : Option ScopeRef :=
  (s.ancestors r).find? fun a => (s.get? a name).isSome

def names (s : Store) (r : ScopeRef) : List String := nameSet ((s.vars r).map Prod.fst)

end Store

end Footprint
