import Footprint.Proofs.Owners
import Footprint.Syntax.Binding
import Footprint.Syntax.Count

set_option autoImplicit false

/-!
Trees with all positions moved. What a tree binds, declares and numbers, and how many statements it
has, does not depend on where it stands.
-/

namespace Footprint

/-- Where positions, and lines on which something ends, are moved to. -/
structure Relocation where
  position : Position → Position
  line : Nat → Nat

variable (m : Relocation)

mutual

def Expr.moved : Expr → Expr
  | .name id p => .name id (m.position p)
  | .const value p => .const value (m.position p)
  | .list items p => .list (Expr.movedAll items) (m.position p)
  | .tuple items p => .tuple (Expr.movedAll items) (m.position p)
  | .binary op left right p => .binary op left.moved right.moved (m.position p)
  | .unary op operand p => .unary op operand.moved (m.position p)
  | .logic op operands p => .logic op (Expr.movedAll operands) (m.position p)
  | .compare left links p => .compare left.moved (Expr.movedLinks links) (m.position p)
  | .call callee args p => .call callee.moved (Expr.movedAll args) (m.position p)
  | .member object attr p => .member object.moved attr (m.position p)
  | .subscript object index p => .subscript object.moved index.moved (m.position p)
  | .choice test body orelse p => .choice test.moved body.moved orelse.moved (m.position p)

def Expr.movedAll : List Expr → List Expr
  | [] => []
  | e :: es => e.moved :: Expr.movedAll es

def Expr.movedLinks : List (CompareOp × Expr) → List (CompareOp × Expr)
  | [] => []
  | (op, e) :: links => (op, e.moved) :: Expr.movedLinks links

end

def Param.moved (p : Param) : Param :=
  ⟨p.name, p.annotation.map (Expr.moved m), p.default.map (Expr.moved m), m.position p.pos⟩

def WithItem.moved (i : WithItem) : WithItem := ⟨i.context.moved m, i.target.map (Expr.moved m)⟩

def Import.moved (a : Import) : Import := ⟨a.name, a.asName, m.position a.pos⟩

def FunctionHead.moved (h : FunctionHead) : FunctionHead where
  name := h.name
  isAsync := h.isAsync
  params := h.params.map (Param.moved m)
  decorators := Expr.movedAll m h.decorators
  returns := h.returns.map (Expr.moved m)
  code := h.code
  bound := h.bound
  pos := m.position h.pos
  endLine := m.line h.endLine

def ClassHead.moved (h : ClassHead) : ClassHead where
  name := h.name
  bases := Expr.movedAll m h.bases
  decorators := Expr.movedAll m h.decorators
  code := h.code
  pos := m.position h.pos
  endLine := m.line h.endLine

mutual

def Stmt.moved : Stmt → Stmt
  | .function head body => .function (head.moved m) (Stmt.movedAll body)
  | .classDef head body => .classDef (head.moved m) (Stmt.movedAll body)
  | .ret value p => .ret (value.map (Expr.moved m)) (m.position p)
  | .delete targets p => .delete (Expr.movedAll m targets) (m.position p)
  | .assign targets value p => .assign (Expr.movedAll m targets) (value.moved m) (m.position p)
  | .augment target op value p => .augment (target.moved m) op (value.moved m) (m.position p)
  | .annotate target hint value p =>
    .annotate (target.moved m) (hint.moved m) (value.map (Expr.moved m)) (m.position p)
  | .forLoop target iter body orelse p =>
    .forLoop (target.moved m) (iter.moved m) (Stmt.movedAll body) (Stmt.movedAll orelse)
      (m.position p)
  | .whileLoop test body orelse p =>
    .whileLoop (test.moved m) (Stmt.movedAll body) (Stmt.movedAll orelse) (m.position p)
  | .cond test body orelse p =>
    .cond (test.moved m) (Stmt.movedAll body) (Stmt.movedAll orelse) (m.position p)
  | .withBlock items body p =>
    .withBlock (items.map (WithItem.moved m)) (Stmt.movedAll body) (m.position p)
  | .tryBlock body handlers orelse final p =>
    .tryBlock (Stmt.movedAll body) (Handler.movedAll handlers) (Stmt.movedAll orelse)
      (Stmt.movedAll final) (m.position p)
  | .raise exc p => .raise (exc.map (Expr.moved m)) (m.position p)
  | .assert test message p =>
    .assert (test.moved m) (message.map (Expr.moved m)) (m.position p)
  | .importNames names p => .importNames (names.map (Import.moved m)) (m.position p)
  | .importFrom source names p => .importFrom source (names.map (Import.moved m)) (m.position p)
  | .globalDecl names p => .globalDecl names (m.position p)
  | .nonlocalDecl names p => .nonlocalDecl names (m.position p)
  | .expr value p => .expr (value.moved m) (m.position p)
  | .pass p => .pass (m.position p)
  | .brk p => .brk (m.position p)
  | .cont p => .cont (m.position p)

def Stmt.movedAll : List Stmt → List Stmt
  | [] => []
  | s :: ss => s.moved :: Stmt.movedAll ss

def Handler.moved : Handler → Handler
  | .clause kind name body p =>
    .clause (kind.map (Expr.moved m)) name (Stmt.movedAll body) (m.position p)

def Handler.movedAll : List Handler → List Handler
  | [] => []
  | h :: hs => h.moved :: Handler.movedAll hs

end

def Script.moved (s : Script) : Script := ⟨Stmt.movedAll m s.body⟩

def Node.moved : Node → Node
  | .script s => .script (s.moved m)
  | .stmt s => .stmt (s.moved m)
  | .expr e => .expr (e.moved m)
  | .handler h => .handler (h.moved m)
  | .param p => .param (p.moved m)
  | .withItem i => .withItem (i.moved m)
  | .imported a => .imported (a.moved m)

/-! ### Lists -/

variable {m}

@[simp] theorem Expr.movedAll_eq (es : List Expr) : Expr.movedAll m es = es.map (Expr.moved m) := by
  induction es with
  | nil => rfl
  | cons e es ih => rw [movedAll, ih, List.map_cons]

@[simp] theorem Expr.movedLinks_eq (links : List (CompareOp × Expr)) :
    Expr.movedLinks m links = links.map (Prod.map id (Expr.moved m)) := by
  induction links with
  | nil => rfl
  | cons link links ih => rw [movedLinks, ih, List.map_cons, Prod.map, id]

@[simp] theorem Stmt.movedAll_eq (ss : List Stmt) : Stmt.movedAll m ss = ss.map (Stmt.moved m) := by
  induction ss with
  | nil => rfl
  | cons s ss ih => rw [movedAll, ih, List.map_cons]

@[simp] theorem Handler.movedAll_eq (hs : List Handler) :
    Handler.movedAll m hs = hs.map (Handler.moved m) := by
  induction hs with
  | nil => rfl
  | cons h hs ih => rw [movedAll, ih, List.map_cons]

/-! ### Expressions -/

@[simp] theorem Expr.pos_moved (e : Expr) : (e.moved m).pos = m.position e.pos := by
  cases e <;> rfl

@[simp] theorem Expr.isSingleTarget_moved (e : Expr) :
    (e.moved m).isSingleTarget = e.isSingleTarget := by
  cases e <;> rfl

mutual

theorem Expr.isAssignable_moved : ∀ e : Expr, (e.moved m).isAssignable = e.isAssignable
  | .tuple items _ | .list items _ => Expr.areAssignable_moved items
  | .name .. | .const .. | .binary .. | .unary .. | .logic .. | .compare .. | .call ..
  | .member .. | .subscript .. | .choice .. => rfl

theorem Expr.areAssignable_moved :
    ∀ es : List Expr, Expr.areAssignable (Expr.movedAll m es) = Expr.areAssignable es
  | [] => rfl
  | e :: es => congrArg₂ and (Expr.isAssignable_moved e) (Expr.areAssignable_moved es)

end

mutual

theorem Expr.boundNames_moved : ∀ e : Expr, (e.moved m).boundNames = e.boundNames
  | .tuple items _ | .list items _ => Expr.boundNamesOf_moved items
  | .name .. | .const .. | .binary .. | .unary .. | .logic .. | .compare .. | .call ..
  | .member .. | .subscript .. | .choice .. => rfl

theorem Expr.boundNamesOf_moved :
    ∀ es : List Expr, Expr.boundNamesOf (Expr.movedAll m es) = Expr.boundNamesOf es
  | [] => rfl
  | e :: es => congrArg₂ List.append (Expr.boundNames_moved e) (Expr.boundNamesOf_moved es)

end

/-! ### Names that a function binds -/

mutual

theorem Stmt.assigned_moved : ∀ s : Stmt, (s.moved m).assigned = s.assigned
  | .function .. | .classDef .. => rfl
  | .assign targets _ _ | .delete targets _ => Expr.boundNamesOf_moved targets
  | .augment target _ _ _ | .annotate target _ _ _ => Expr.boundNames_moved target
  | .forLoop target _ body orelse _ => by
    rw [Stmt.moved, Stmt.assigned, Stmt.assigned, Expr.boundNames_moved, assignedIn_moved body,
      assignedIn_moved orelse]
  | .whileLoop _ body orelse _ | .cond _ body orelse _ =>
    congrArg₂ List.append (assignedIn_moved body) (assignedIn_moved orelse)
  | .withBlock items body _ => by
    have targets (i : WithItem) : (((i.moved m).target.map Expr.boundNames).getD []) =
        (i.target.map Expr.boundNames).getD [] := by
      cases target : i.target with
      | none => simp [WithItem.moved, target]
      | some e => simp [WithItem.moved, target, Expr.boundNames_moved e]
    rw [Stmt.moved, Stmt.assigned, Stmt.assigned, assignedIn_moved body, List.flatMap_map]
    simp only [targets]
  | .tryBlock body handlers orelse final _ => by
    rw [Stmt.moved, Stmt.assigned, Stmt.assigned, assignedIn_moved body,
      assignedInHandlers_moved handlers,
      assignedIn_moved orelse, assignedIn_moved final]
  | .importNames names _ => List.map_map
  | .importFrom _ names _ => List.filterMap_map
  | .ret .. | .raise .. | .assert .. | .globalDecl .. | .nonlocalDecl .. | .expr .. | .pass ..
  | .brk .. | .cont .. => rfl

theorem assignedIn_moved : ∀ ss : List Stmt, assignedIn (Stmt.movedAll m ss) = assignedIn ss
  | [] => rfl
  | s :: ss => congrArg₂ List.append (Stmt.assigned_moved s) (assignedIn_moved ss)

theorem assignedInHandlers_moved :
    ∀ hs : List Handler, assignedInHandlers (Handler.movedAll m hs) = assignedInHandlers hs
  | [] => rfl
  | .clause _ name body _ :: hs => by
    rw [Handler.movedAll, Handler.moved, assignedInHandlers, assignedInHandlers,
      assignedIn_moved body, assignedInHandlers_moved hs]

end

section

variable {declares : Stmt → List String}

mutual

theorem Stmt.declared_moved (kept : ∀ s : Stmt, declares (s.moved m) = declares s) :
    ∀ s : Stmt, (s.moved m).declared declares = s.declared declares
  | .forLoop _ _ body orelse _ | .whileLoop _ body orelse _ | .cond _ body orelse _ =>
    congrArg₂ List.append (declaredIn_moved kept body) (declaredIn_moved kept orelse)
  | .withBlock _ body _ => declaredIn_moved kept body
  | .tryBlock body handlers orelse final _ => by
    rw [Stmt.moved, Stmt.declared, Stmt.declared, declaredIn_moved kept body,
      declaredInHandlers_moved kept handlers, declaredIn_moved kept orelse,
      declaredIn_moved kept final]
  | .function head body => kept (.function head body)
  | .classDef head body => kept (.classDef head body)
  | .ret value p => kept (.ret value p)
  | .delete targets p => kept (.delete targets p)
  | .assign targets value p => kept (.assign targets value p)
  | .augment target op value p => kept (.augment target op value p)
  | .annotate target annotation value p => kept (.annotate target annotation value p)
  | .raise exc p => kept (.raise exc p)
  | .assert test message p => kept (.assert test message p)
  | .importNames names p => kept (.importNames names p)
  | .importFrom source names p => kept (.importFrom source names p)
  | .globalDecl names p => kept (.globalDecl names p)
  | .nonlocalDecl names p => kept (.nonlocalDecl names p)
  | .expr value p => kept (.expr value p)
  | .pass p => kept (.pass p)
  | .brk p => kept (.brk p)
  | .cont p => kept (.cont p)

theorem declaredIn_moved (kept : ∀ s : Stmt, declares (s.moved m) = declares s) :
    ∀ ss : List Stmt, declaredIn declares (Stmt.movedAll m ss) = declaredIn declares ss
  | [] => rfl
  | s :: ss => congrArg₂ List.append (Stmt.declared_moved kept s) (declaredIn_moved kept ss)

theorem declaredInHandlers_moved (kept : ∀ s : Stmt, declares (s.moved m) = declares s) :
    ∀ hs : List Handler,
      declaredInHandlers declares (Handler.movedAll m hs) = declaredInHandlers declares hs
  | [] => rfl
  | .clause _ _ body _ :: hs =>
    congrArg₂ List.append (declaredIn_moved kept body) (declaredInHandlers_moved kept hs)

end

end

theorem Bound.ofFunction_moved (params : List Param) (body : List Stmt) :
    Bound.ofFunction (params.map (Param.moved m)) (Stmt.movedAll m body) =
      Bound.ofFunction params body := by
  have globals : ∀ s : Stmt, (s.moved m).globalNames = s.globalNames := by
    intro s
    cases s <;> rfl
  have nonlocals : ∀ s : Stmt, (s.moved m).nonlocalNames = s.nonlocalNames := by
    intro s
    cases s <;> rfl
  have names : (params.map (Param.moved m)).map (·.name) = params.map (·.name) := List.map_map
  simp only [ofFunction, declaredIn_moved globals, declaredIn_moved nonlocals,
    assignedIn_moved, names]

/-! ### Nodes -/

namespace Node

theorem children_moved (n : Node) : (n.moved m).children = n.children.map (moved m) := by
  cases n with
  | script s =>
    simp [moved, Script.moved, children, Function.comp_def]
  | stmt s =>
    cases s <;> simp [moved, Stmt.moved, children, Stmt.parts, Function.comp_def,
      FunctionHead.moved, ClassHead.moved, Option.toList_map]
  | expr e =>
    cases e <;> simp [moved, Expr.moved, children, Expr.parts, Function.comp_def]
  | handler h =>
    cases h
    simp [moved, Handler.moved, children, Handler.kind, Handler.body, Function.comp_def,
      Option.toList_map]
  | param p => simp [moved, Param.moved, children, Function.comp_def, Option.toList_map]
  | withItem i => simp [moved, WithItem.moved, children, Function.comp_def, Option.toList_map]
  | imported a => rfl

theorem walk_moved (n : Node) : (n.moved m).walk = n.walk.map (moved m) := by
  induction n using below with
  | node n ih =>
    rw [walk_eq, walk_eq n, children_moved, List.flatMap_map, List.map_cons, List.map_flatMap]
    exact congrArg _ (List.flatMap_congr ih)

theorem countStatements_moved (n : Node) : (n.moved m).countStatements = n.countStatements := by
  have kept (n : Node) : (n.moved m).isStatement = n.isStatement := by
    cases n with
    | stmt s => cases s <;> rfl
    | _ => rfl
  rw [countStatements, walk_moved, List.countP_map, countStatements]
  exact List.countP_congr fun n _ => by rw [Function.comp_apply, kept]

theorem codes_moved (n : Node) : (n.moved m).codes = n.codes := by
  have kept (n : Node) : (n.moved m).code?.map Code.id = n.code?.map Code.id := by
    cases n with
    | stmt s => cases s <;> rfl
    | _ => rfl
  rw [codes, walk_moved, List.filterMap_map, codes]
  exact List.filterMap_congr fun n _ => kept n

end Node

end Footprint
