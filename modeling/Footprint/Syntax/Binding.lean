import Footprint.Syntax.Tree

set_option autoImplicit false

/-!
Which names a function body binds. Bodies of nested definitions are scopes of their own: of those
only the defined name counts.
-/

namespace Footprint

/-- Names in ascending order of code points, each once. -/
def insertName (name : String) : List String → List String
  | [] => [name]
  | n :: ns =>
    if name = n then n :: ns
    else if name < n then name :: n :: ns
    else n :: insertName name ns

theorem mem_insertName {a name : String} {ns : List String} :
    a ∈ insertName name ns ↔ a = name ∨ a ∈ ns := by
  induction ns with
  | nil => simp [insertName]
  | cons n ns ih =>
    simp only [insertName]
    split
    · subst_vars; simp
    · split <;> simp [ih, or_left_comm]

def nameSet (names : List String) : List String := names.foldr insertName []

theorem mem_nameSet {a : String} {names : List String} : a ∈ nameSet names ↔ a ∈ names := by
  induction names with
  | nil => simp [nameSet]
  | cons n ns ih =>
    have : nameSet (n :: ns) = insertName n (nameSet ns) := rfl
    rw [this, mem_insertName, ih, List.mem_cons]

mutual

/-- The names that assigning to a target binds; attributes and subscripts bind none. -/
def Expr.boundNames : Expr → List String
  | .name id _ => [id]
  | .tuple items _ | .list items _ => Expr.boundNamesOf items
  | _ => []

def Expr.boundNamesOf : List Expr → List String
  | [] => []
  | e :: es => e.boundNames ++ Expr.boundNamesOf es

end

/-- The name that an imported module is bound to: its alias, or its first component. -/
def Import.moduleName (a : Import) : String :=
  a.asName.getD (String.ofList (a.name.toList.takeWhile (· ≠ '.')))

/-- The name that an imported member is bound to; importing everything binds nothing. -/
def Import.memberName? (a : Import) : Option String :=
  if a.name = "*" then none else some (a.asName.getD a.name)

mutual

/-- The names that a statement binds in the scope it stands in. -/
def Stmt.assigned : Stmt → List String
  | .function h _ => [h.name]
  | .classDef h _ => [h.name]
  | .assign targets _ _ => Expr.boundNamesOf targets
  | .augment target _ _ _ => target.boundNames
  | .annotate target _ _ _ => target.boundNames
  | .delete targets _ => Expr.boundNamesOf targets
  | .forLoop target _ body orelse _ => target.boundNames ++ (assignedIn body ++ assignedIn orelse)
  | .whileLoop _ body orelse _ => assignedIn body ++ assignedIn orelse
  | .cond _ body orelse _ => assignedIn body ++ assignedIn orelse
  | .withBlock items body _ =>
    items.flatMap (fun i => (i.target.map Expr.boundNames).getD []) ++ assignedIn body
  | .tryBlock body handlers orelse final _ =>
    assignedIn body ++ (assignedInHandlers handlers ++ (assignedIn orelse ++ assignedIn final))
  | .importNames names _ => names.map Import.moduleName
  | .importFrom _ names _ => names.filterMap Import.memberName?
  | _ => []

def assignedIn : List Stmt → List String
  | [] => []
  | s :: ss => s.assigned ++ assignedIn ss

def assignedInHandlers : List Handler → List String
  | [] => []
  | .clause _ name body _ :: hs => name.toList ++ (assignedIn body ++ assignedInHandlers hs)

end

mutual

/-- The names that the statements declared by `declares` name, in the scope it stands in. -/
def Stmt.declared (declares : Stmt → List String) : Stmt → List String
  | .forLoop _ _ body orelse _ => declaredIn declares body ++ declaredIn declares orelse
  | .whileLoop _ body orelse _ => declaredIn declares body ++ declaredIn declares orelse
  | .cond _ body orelse _ => declaredIn declares body ++ declaredIn declares orelse
  | .withBlock _ body _ => declaredIn declares body
  | .tryBlock body handlers orelse final _ =>
    declaredIn declares body ++ (declaredInHandlers declares handlers ++
      (declaredIn declares orelse ++ declaredIn declares final))
  | s => declares s

def declaredIn (declares : Stmt → List String) : List Stmt → List String
  | [] => []
  | s :: ss => s.declared declares ++ declaredIn declares ss

def declaredInHandlers (declares : Stmt → List String) : List Handler → List String
  | [] => []
  | .clause _ _ body _ :: hs => declaredIn declares body ++ declaredInHandlers declares hs

end

def Stmt.globalNames : Stmt → List String
  | .globalDecl names _ => names
  | _ => []

def Stmt.nonlocalNames : Stmt → List String
  | .nonlocalDecl names _ => names
  | _ => []

/-- What a function with the given parameters and body binds: its locals are the parameters and the
names assigned in the body, except those declared to live elsewhere. -/
def Bound.ofFunction (params : List Param) (body : List Stmt) : Bound :=
  let globals := nameSet (declaredIn Stmt.globalNames body)
  let nonlocals := nameSet (declaredIn Stmt.nonlocalNames body)
  let assigned := nameSet (params.map (·.name) ++ assignedIn body)
  { locals := assigned.filter fun n => !globals.contains n && !nonlocals.contains n
    globals, nonlocals }

end Footprint
