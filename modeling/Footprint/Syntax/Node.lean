import Footprint.Syntax.Tree

set_option autoImplicit false

/-!
Syntax trees as uniform nodes: every part of a tree is a node, its parts in source order are its
children, and `walk` lists a node with all below it, each before its children.
-/

namespace Footprint

inductive Node where
  | script (s : Script)
  | stmt (s : Stmt)
  | expr (e : Expr)
  | handler (h : Handler)
  | param (p : Param)
  | withItem (i : WithItem)
  | imported (a : Import)

def Expr.parts : Expr → List Expr
  | .name .. | .const .. => []
  | .list items _ | .tuple items _ => items
  | .binary _ left right _ => [left, right]
  | .unary _ operand _ => [operand]
  | .logic _ operands _ => operands
  | .compare left links _ => left :: links.map Prod.snd
  | .call callee args _ => callee :: args
  | .member object _ _ => [object]
  | .subscript object index _ => [object, index]
  | .choice test body orelse _ => [test, body, orelse]

def Stmt.parts : Stmt → List Node
  | .function h body =>
    h.decorators.map .expr ++ h.params.map .param ++ h.returns.toList.map .expr ++ body.map .stmt
  | .classDef h body => h.decorators.map .expr ++ h.bases.map .expr ++ body.map .stmt
  | .ret value _ => value.toList.map .expr
  | .delete targets _ => targets.map .expr
  | .assign targets value _ => targets.map .expr ++ [.expr value]
  | .augment target _ value _ => [.expr target, .expr value]
  | .annotate target annotation value _ =>
    [.expr target, .expr annotation] ++ value.toList.map .expr
  | .forLoop target iter body orelse _ =>
    [.expr target, .expr iter] ++ body.map .stmt ++ orelse.map .stmt
  | .whileLoop test body orelse _ | .cond test body orelse _ =>
    [.expr test] ++ body.map .stmt ++ orelse.map .stmt
  | .withBlock items body _ => items.map .withItem ++ body.map .stmt
  | .tryBlock body handlers orelse final _ =>
    body.map .stmt ++ handlers.map .handler ++ orelse.map .stmt ++ final.map .stmt
  | .raise exc _ => exc.toList.map .expr
  | .assert test message _ => [.expr test] ++ message.toList.map .expr
  | .importNames names _ | .importFrom _ names _ => names.map .imported
  | .expr value _ => [.expr value]
  | .globalDecl .. | .nonlocalDecl .. | .pass _ | .brk _ | .cont _ => []

namespace Node

/-- The parts of a node in source order. -/
def children : Node → List Node
  | script s => s.body.map .stmt
  | stmt s => s.parts
  | expr e => e.parts.map .expr
  | handler h => h.kind.toList.map .expr ++ h.body.map .stmt
  | param p => p.annotation.toList.map .expr ++ p.default.toList.map .expr
  | withItem i => [.expr i.context] ++ i.target.toList.map .expr
  | imported _ => []

theorem sizeOf_lt_of_mem_exprParts {e d : Expr} (h : d ∈ e.parts) : sizeOf d < sizeOf e := by
  cases e <;> simp only [Expr.parts, List.mem_cons, List.not_mem_nil, or_false] at h
  case compare left links pos =>
    rcases h with rfl | h
    · simp; omega
    · obtain ⟨l, hl, rfl⟩ := List.mem_map.1 h
      have h₁ := List.sizeOf_lt_of_mem hl
      have h₂ : sizeOf l.2 < sizeOf l := by
        obtain ⟨a, b⟩ := l
        rw [Prod.mk.sizeOf_spec]
        exact Nat.lt_add_of_pos_left (Nat.add_pos_left Nat.one_pos _)
      simp; omega
  case call callee args pos =>
    rcases h with rfl | h
    · simp; omega
    · have := List.sizeOf_lt_of_mem h
      simp; omega
  case list | tuple | logic =>
    have := List.sizeOf_lt_of_mem h
    simp; omega
  case unary | member => subst h; simp; omega
  case binary | subscript => rcases h with rfl | rfl <;> simp <;> omega
  case choice => rcases h with rfl | rfl | rfl <;> simp <;> omega

theorem sizeOf_lt_of_mem_option {α : Type} [SizeOf α] {a : α} {o : Option α} (h : o = some a) :
    sizeOf a < sizeOf o := by
  subst h
  simp

theorem sizeOf_lt_of_mem_parts {s : Stmt} {c : Node} (h : c ∈ s.parts) :
    sizeOf c < 1 + sizeOf s := by
  cases s
  case function head body =>
    cases head
    simp only [Stmt.parts, List.mem_append, List.mem_map, Option.mem_toList] at h
    rcases h with ((h | h) | h) | h <;> obtain ⟨a, ha, rfl⟩ := h <;>
      first
      | (have hlt := List.sizeOf_lt_of_mem ha; simp; omega)
      | (have hlt := sizeOf_lt_of_mem_option ha; simp; omega)
  case classDef head body =>
    cases head
    simp only [Stmt.parts, List.mem_append, List.mem_map] at h
    rcases h with (h | h) | h <;> obtain ⟨a, ha, rfl⟩ := h <;>
      (have hlt := List.sizeOf_lt_of_mem ha; simp; omega)
  all_goals
    simp only [Stmt.parts, List.mem_append, List.mem_map, List.mem_cons, List.not_mem_nil,
      or_false, Option.mem_toList] at h
  case ret | raise =>
    obtain ⟨a, ha, rfl⟩ := h
    have := sizeOf_lt_of_mem_option ha
    simp; omega
  case delete | importNames | importFrom =>
    obtain ⟨a, ha, rfl⟩ := h
    have := List.sizeOf_lt_of_mem ha
    simp; omega
  case augment | expr =>
    rcases h with rfl | rfl <;> simp <;> omega
  case assign =>
    rcases h with ⟨a, ha, rfl⟩ | rfl
    · have := List.sizeOf_lt_of_mem ha
      simp; omega
    · simp; omega
  case annotate =>
    rcases h with (rfl | rfl) | ⟨a, ha, rfl⟩
    · simp; omega
    · simp; omega
    · have := sizeOf_lt_of_mem_option ha
      simp; omega
  case assert =>
    rcases h with rfl | ⟨a, ha, rfl⟩
    · simp; omega
    · have := sizeOf_lt_of_mem_option ha
      simp; omega
  case forLoop =>
    rcases h with ((rfl | rfl) | ⟨a, ha, rfl⟩) | ⟨a, ha, rfl⟩
    · simp; omega
    · simp; omega
    all_goals
      have := List.sizeOf_lt_of_mem ha
      simp; omega
  case whileLoop | cond =>
    rcases h with (rfl | ⟨a, ha, rfl⟩) | ⟨a, ha, rfl⟩
    · simp; omega
    all_goals
      have := List.sizeOf_lt_of_mem ha
      simp; omega
  case withBlock =>
    rcases h with ⟨a, ha, rfl⟩ | ⟨a, ha, rfl⟩ <;>
      (have hlt := List.sizeOf_lt_of_mem ha; simp; omega)
  case tryBlock =>
    rcases h with ((⟨a, ha, rfl⟩ | ⟨a, ha, rfl⟩) | ⟨a, ha, rfl⟩) | ⟨a, ha, rfl⟩ <;>
      (have hlt := List.sizeOf_lt_of_mem ha; simp; omega)

theorem sizeOf_lt_of_mem_children {n c : Node} (h : c ∈ n.children) : sizeOf c < sizeOf n := by
  cases n
  case stmt s => simpa using sizeOf_lt_of_mem_parts h
  all_goals
    simp only [children, List.mem_append, List.mem_map, List.mem_cons, List.not_mem_nil, or_false,
      Option.mem_toList] at h
  case script s =>
    obtain ⟨a, ha, rfl⟩ := h
    have := List.sizeOf_lt_of_mem ha
    cases s
    simp_all; omega
  case expr e =>
    obtain ⟨a, ha, rfl⟩ := h
    simpa using sizeOf_lt_of_mem_exprParts ha
  case handler hd =>
    cases hd
    simp only [Handler.kind, Handler.body] at h
    rcases h with ⟨a, ha, rfl⟩ | ⟨a, ha, rfl⟩
    · have := sizeOf_lt_of_mem_option ha
      simp; omega
    · have := List.sizeOf_lt_of_mem ha
      simp; omega
  case param p =>
    cases p
    rcases h with ⟨a, ha, rfl⟩ | ⟨a, ha, rfl⟩ <;>
      (have hlt := sizeOf_lt_of_mem_option ha; simp_all; omega)
  case withItem i =>
    cases i
    rcases h with rfl | ⟨a, ha, rfl⟩
    · simp; omega
    · have := sizeOf_lt_of_mem_option ha
      simp_all; omega

/-- The node and all nodes below it, each before its children, and then `rest`. -/
def walkOnto (n : Node) (rest : List Node) : List Node :=
  n :: n.children.attach.foldr (fun c rest => walkOnto c.1 rest) rest
termination_by sizeOf n
decreasing_by exact sizeOf_lt_of_mem_children c.2

/-- The node and all nodes below it, each before its children. -/
def walk (n : Node) : List Node := n.walkOnto []

theorem walkOnto_cons (n : Node) (rest : List Node) :
    n.walkOnto rest = n :: n.children.foldr walkOnto rest := by
  rw [walkOnto, List.foldr_subtype (g := walkOnto) (by simp)]
  simp

theorem walkOnto_eq (n : Node) (rest : List Node) : n.walkOnto rest = n.walk ++ rest := by
  rw [walk, walkOnto_cons, walkOnto_cons n []]
  suffices h : ∀ cs : List Node, (∀ c ∈ cs, sizeOf c < sizeOf n) →
      cs.foldr walkOnto rest = cs.foldr walkOnto [] ++ rest by
    rw [h _ fun c hc => sizeOf_lt_of_mem_children hc, List.cons_append]
  intro cs hcs
  induction cs with
  | nil => rfl
  | cons c cs ih =>
    have hc := hcs c List.mem_cons_self
    rw [List.foldr_cons, List.foldr_cons, ih fun d hd => hcs d (List.mem_cons_of_mem _ hd),
      walkOnto_eq c, walkOnto_eq c (cs.foldr walkOnto []), List.append_assoc]
termination_by sizeOf n

theorem walk_eq (n : Node) : n.walk = n :: n.children.flatMap walk := by
  rw [walk, walkOnto_cons]
  congr 1
  induction n.children with
  | nil => rfl
  | cons c cs ih => rw [List.foldr_cons, walkOnto_eq, ih, List.flatMap_cons]

end Node

end Footprint
