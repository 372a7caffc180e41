import Footprint.Proofs.Owners

set_option autoImplicit false

/-!
The statements of a script, counted along its blocks. Expressions, parameters, the items of with
statements and imported names have no statement in them, so what is found by going through all nodes
of a tree is found by going through its blocks alone.
-/

namespace Footprint

/-- The statement is an expression and nothing else. -/
def Stmt.isExpression : Stmt → Bool
  | .expr .. => true
  | _ => false

/-! ### Along blocks -/

section

variable (own : Stmt → Nat) (clause : Handler → Nat)

mutual

/-- What a statement comes to together with all that stands in its blocks, at every depth, if
statements and except clauses come to so much by themselves. Its blocks are the body of a
definition, a loop, a branch or a with statement, that of a try statement and those of its except
clauses, and the blocks after `else` and `finally`. -/
def Stmt.total (s : Stmt) : Nat :=
  own s +
    match s with
    | .function _ body | .classDef _ body | .withBlock _ body _ => totalIn body
    | .forLoop _ _ body orelse _ | .whileLoop _ body orelse _ | .cond _ body orelse _ =>
      totalIn body + totalIn orelse
    | .tryBlock body handlers orelse final _ =>
      totalIn body + totalInClauses handlers + totalIn orelse + totalIn final
    | _ => 0

def totalIn : List Stmt → Nat
  | [] => 0
  | s :: ss => s.total + totalIn ss

def totalInClauses : List Handler → Nat
  | [] => 0
  | .clause kind name body p :: hs =>
    clause (.clause kind name body p) + totalIn body + totalInClauses hs

end

end

/-- The number of statements in a body at every depth, expression statements apart. -/
def statementsIn (body : List Stmt) : Nat :=
  totalIn (fun s => if s.isExpression then 0 else 1) (fun _ => 0) body

/-- The number of except clauses in a body at every depth. -/
def clausesIn (body : List Stmt) : Nat := totalIn (fun _ => 0) (fun _ => 1) body

/-! ### Through all nodes -/

namespace Node

/-- What the nodes count together. -/
def countAll : List Node → Nat
  | [] => 0
  | n :: ns => n.countStatements + countAll ns

@[simp] theorem countAll_nil : countAll [] = 0 := rfl

@[simp] theorem countAll_cons (n : Node) (ns : List Node) :
    countAll (n :: ns) = n.countStatements + countAll ns := rfl

@[simp] theorem countAll_append (ns ms : List Node) :
    countAll (ns ++ ms) = countAll ns + countAll ms := by
  induction ns with
  | nil => simp
  | cons n ns ih => simp [ih, Nat.add_assoc]

theorem countStatements_eq_countAll (n : Node) :
    n.countStatements = (if n.isStatement then 1 else 0) + countAll n.children := by
  rw [countStatements_eq]
  induction n.children with
  | nil => rfl
  | cons c cs ih => simp_all

theorem countAll_eq_zero {ns : List Node} (h : ∀ n ∈ ns, n.countStatements = 0) :
    countAll ns = 0 := by
  induction ns with
  | nil => rfl
  | cons n ns ih => simp_all

@[simp] theorem countStatements_expr (e : Expr) : (expr e).countStatements = 0 := by
  suffices h : ∀ n e, n = expr e → n.countStatements = 0 from h _ e rfl
  intro n
  induction n using below with
  | node n ih =>
    rintro e rfl
    rw [countStatements_eq_countAll, countAll_eq_zero]
    · rfl
    · intro m hm
      obtain ⟨d, -, rfl⟩ := List.mem_map.1 hm
      exact ih _ hm d rfl

/-- Nodes of a kind that counts nothing count nothing together. -/
@[simp] theorem countAll_map_eq_zero {α : Type} {node : α → Node}
    (h : ∀ a, (node a).countStatements = 0) (as : List α) : countAll (as.map node) = 0 := by
  apply countAll_eq_zero
  simp [h]

@[simp] theorem countStatements_param (p : Param) : (param p).countStatements = 0 := by
  rw [countStatements_eq_countAll]
  simp [isStatement, children]

@[simp] theorem countStatements_withItem (i : WithItem) : (withItem i).countStatements = 0 := by
  rw [countStatements_eq_countAll]
  simp [isStatement, children]

@[simp] theorem countStatements_imported (a : Import) : (imported a).countStatements = 0 := by
  rw [countStatements_eq_countAll]
  simp [isStatement, children]

mutual

theorem countStatements_stmt : ∀ s : Stmt, (stmt s).countStatements =
    s.total (fun s => if s.isExpression then 0 else 1) (fun _ => 0) +
      s.total (fun _ => 0) (fun _ => 1)
  | .function head body | .classDef head body | .withBlock items body p => by
    rw [countStatements_eq_countAll]
    simp [isStatement, children, Stmt.parts, Stmt.total, Stmt.isExpression, countAll_body body,
      statementsIn, clausesIn]
    omega
  | .forLoop target iter body orelse p | .whileLoop test body orelse p
  | .cond test body orelse p => by
    rw [countStatements_eq_countAll]
    simp [isStatement, children, Stmt.parts, Stmt.total, Stmt.isExpression, countAll_body body,
      countAll_body orelse, statementsIn, clausesIn]
    omega
  | .tryBlock body handlers orelse final p => by
    rw [countStatements_eq_countAll]
    simp [isStatement, children, Stmt.parts, Stmt.total, Stmt.isExpression, countAll_body body,
      countAll_handlers handlers, countAll_body orelse, countAll_body final, statementsIn, clausesIn]
    omega
  | .ret .. | .delete .. | .assign .. | .augment .. | .annotate .. | .raise .. | .assert ..
  | .importNames .. | .importFrom .. | .globalDecl .. | .nonlocalDecl .. | .expr .. | .pass ..
  | .brk .. | .cont .. => by
    rw [countStatements_eq_countAll]
    simp [isStatement, children, Stmt.parts, Stmt.total, Stmt.isExpression]

/-- A body counts the statements and the except clauses in it. -/
theorem countAll_body : ∀ body : List Stmt,
    countAll (body.map stmt) = statementsIn body + clausesIn body
  | [] => rfl
  | s :: ss => by
    simp only [List.map_cons, countAll_cons, countStatements_stmt s, countAll_body ss,
      statementsIn, clausesIn, totalIn]
    omega

theorem countAll_handlers : ∀ hs : List Handler, countAll (hs.map handler) =
    totalInClauses (fun s => if s.isExpression then 0 else 1) (fun _ => 0) hs +
      totalInClauses (fun _ => 0) (fun _ => 1) hs
  | [] => rfl
  | .clause kind name body p :: hs => by
    rw [List.map_cons, countAll_cons, countStatements_eq_countAll, countAll_handlers hs]
    simp [isStatement, children, Handler.kind, Handler.body, countAll_body body, statementsIn,
      clausesIn, totalInClauses]
    omega

end

end Node

/-! ### Scripts -/

/-- The number of statements of a script is that of its statements, expression statements apart,
and of its except clauses, all of them found by going through blocks. So a body counts what its
statements count, and a definition counts one more than its body; what is no statement, except clause
or script counts nothing. -/
theorem Node.counted_along_blocks :
    (∀ s : Script, (script s).countStatements = statementsIn s.body + clausesIn s.body) ∧
    (∀ s : Script, (script s).countStatements = countAll (s.body.map stmt)) ∧
    (∀ body : List Stmt, countAll (body.map stmt) = statementsIn body + clausesIn body) ∧
    (∀ head body, (stmt (.function head body)).countStatements = 1 + countAll (body.map stmt)) ∧
    (∀ head body, (stmt (.classDef head body)).countStatements = 1 + countAll (body.map stmt)) ∧
    (∀ e, (expr e).countStatements = 0) ∧ (∀ p, (param p).countStatements = 0) ∧
    (∀ i, (withItem i).countStatements = 0) ∧ ∀ a, (imported a).countStatements = 0 := by
  have whole (s : Script) : (script s).countStatements = countAll (s.body.map stmt) := by
    rw [countStatements_eq_countAll]
    simp [isStatement, children]
  refine ⟨fun s => ?_, whole, countAll_body, fun head body => ?_, fun head body => ?_,
    countStatements_expr, countStatements_param, countStatements_withItem,
    countStatements_imported⟩
  · rw [whole, countAll_body]
  · rw [countStatements_eq_countAll]
    simp [isStatement, children, Stmt.parts]
  · rw [countStatements_eq_countAll]
    simp [isStatement, children, Stmt.parts]

end Footprint
