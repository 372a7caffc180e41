import Footprint.Proofs.Owners
import Footprint.Proofs.Spelling

set_option autoImplicit false

/-!
The shape of trees that the parser makes: what holds of each node, whatever is around it.
-/

namespace Footprint

open Token

/-- The components of a dotted name. -/
def components (s : String) : List String := (s.toList.splitOn '.').map String.ofList

def isDotted (s : String) : Bool := (components s).all isIdentifier

/-- The dots in front of what names are imported from. -/
def sourceDots (s : String) : List Char := s.toList.takeWhile (· = '.')

def sourceName (s : String) : String := String.ofList (s.toList.dropWhile (· = '.'))

theorem sourceDots_append_sourceName (s : String) :
    String.ofList (sourceDots s) ++ sourceName s = s := by
  rw [sourceDots, sourceName, ← String.ofList_append, List.takeWhile_append_dropWhile,
    String.ofList_toList]

/-- Names can be imported from the text: it has dots, a dotted name or both, or nothing. -/
def isSource (s : String) : Bool := sourceName s = "" || isDotted (sourceName s)

namespace Import

/-- Everything is imported. -/
def isStar (a : Import) : Bool := a.name = "*" && a.asName.isNone

end Import

/-- The parameters have different names, and those with a default value come last. -/
structure WellOrdered (ps : List Param) : Prop where
  distinct : (ps.map (·.name)).Nodup
  defaults : ps.Pairwise fun p q => p.default.isSome = true → q.default.isSome = true

theorem WellOrdered.tail {p : Param} {ps : List Param} (h : WellOrdered (p :: ps)) :
    WellOrdered ps := by
  obtain ⟨distinct, defaults⟩ := h
  rw [List.map_cons, List.nodup_cons] at distinct
  rw [List.pairwise_cons] at defaults
  exact ⟨distinct.2, defaults.2⟩

namespace Expr

theorem areAssignable_iff {es : List Expr} :
    areAssignable es = true ↔ ∀ e ∈ es, e.isAssignable = true := by
  induction es with
  | nil => simp [areAssignable]
  | cons e es ih => simp [areAssignable, ih]

theorem isAssignable_of_isSingleTarget {e : Expr} (h : e.isSingleTarget = true) :
    e.isAssignable = true := by
  cases e <;> first | rfl | cases h

end Expr

namespace Stmt

/-- The statement is as the parser makes it, whatever is below it. -/
def Shaped : Stmt → Prop
  | function h body => isIdentifier h.name = true ∧ WellOrdered h.params ∧ body ≠ []
  | classDef h body => isIdentifier h.name = true ∧ body ≠ []
  | delete targets _ | assign targets _ _ =>
    targets ≠ [] ∧ ∀ e ∈ targets, e.isAssignable = true
  | augment target _ _ _ | annotate target _ _ _ => target.isSingleTarget = true
  | forLoop target _ body _ _ => target.isAssignable = true ∧ body ≠ []
  | whileLoop _ body _ _ | cond _ body _ _ => body ≠ []
  | withBlock items body _ => items ≠ [] ∧ body ≠ []
  | tryBlock body handlers orelse final _ =>
    body ≠ [] ∧ (handlers ≠ [] ∨ final ≠ []) ∧ (orelse ≠ [] → handlers ≠ [])
  | importNames names _ => names ≠ [] ∧ ∀ a ∈ names, isDotted a.name = true
  | importFrom source names _ =>
    isSource source = true ∧
      ((∃ a, names = [a] ∧ a.isStar = true) ∨ names ≠ [] ∧ ∀ a ∈ names, isIdentifier a.name = true)
  | globalDecl names _ | nonlocalDecl names _ => names ≠ [] ∧ ∀ s ∈ names, isIdentifier s = true
  | ret .. | raise .. | assert .. | expr .. | pass _ | brk _ | cont _ => True

end Stmt

namespace Node

/-- The node is as the parser makes it, whatever is around it and below it. -/
def Shaped : Node → Prop
  | stmt s => s.Shaped
  | handler (.clause kind name body _) =>
    (∀ s ∈ name, isIdentifier s = true ∧ kind ≠ none) ∧ body ≠ []
  | param p => isIdentifier p.name = true
  | withItem i => ∀ e ∈ i.target, e.isAssignable = true
  | imported a => ∀ s ∈ a.asName, isIdentifier s = true
  | expr (.name id _) => isIdentifier id = true
  | expr (.const (.int n) _) => 0 ≤ n.toInt
  | expr (.logic _ operands _) => 2 ≤ operands.length
  | expr (.compare _ links _) => links ≠ []
  | expr (.member _ attr _) => isIdentifier attr = true
  | _ => True

def isFloat : Node → Bool
  | expr (.const (.float _) _) => true
  | _ => false

/-- The tree below the node is as the parser makes it and has no floating-point literal. -/
def Writable (n : Node) : Prop := ∀ m ∈ n.walk, m.Shaped ∧ m.isFloat = false

/-- Each function at and below the node has the names stored that it binds. -/
def IsBound (n : Node) : Prop := ∀ head body, stmt (.function head body) ∈ n.walk →
  head.bound = .ofFunction head.params body

variable {n m : Node}

theorem Writable.here (h : n.Writable) : n.Shaped ∧ n.isFloat = false := by
  apply h
  rw [walk_eq]
  exact List.mem_cons_self

theorem Writable.child (h : n.Writable) (hm : m ∈ n.children) : m.Writable := by
  intro k hk
  apply h
  rw [walk_eq]
  exact List.mem_cons_of_mem _ (List.mem_flatMap.2 ⟨m, hm, hk⟩)

end Node

end Footprint
