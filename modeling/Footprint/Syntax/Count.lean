import Footprint.Syntax.Node

set_option autoImplicit false

/-!
The number of statements of a script, the base of its coverage. Except clauses count as statements;
expression statements do not, so a run may cover more lines than there are statements.
-/

namespace Footprint.Node

def isStatement : Node → Bool
  | handler _ => true
  | stmt (.expr ..) => false
  | stmt _ => true
  | _ => false

def countStatements (n : Node) : Nat := n.walk.countP isStatement

/-- A node counts itself and what its children count. -/
theorem countStatements_eq (n : Node) :
    n.countStatements =
      (if n.isStatement then 1 else 0) + n.children.foldr (fun c k => c.countStatements + k) 0 := by
  have flat (l : List Node) :
      (l.flatMap walk).countP isStatement = l.foldr (fun c k => c.countStatements + k) 0 := by
    induction l with
    | nil => rfl
    | cons m l ih => simp [List.flatMap_cons, ih, countStatements]
  rw [countStatements, walk_eq, List.countP_cons, flat, Nat.add_comm]

end Footprint.Node
