import Footprint.Machine.Exec

set_option autoImplicit false

/-!
Code objects: the top level of a script, its functions and the bodies of its classes. A statement
belongs to the innermost code object around it.
-/

namespace Footprint

/-- The blocks of a statement. The body of a definition is none of them. -/
def Stmt.blocks : Stmt → List (List Stmt)
  | .forLoop _ _ body orelse _ | .whileLoop _ body orelse _ | .cond _ body orelse _ =>
    [body, orelse]
  | .withBlock _ body _ => [body]
  | .tryBlock body handlers orelse final _ => body :: handlers.map Handler.body ++ [orelse, final]
  | _ => []

inductive Code where
  | top (s : Script)
  | function (f : Function)
  | classBody (head : ClassHead) (body : List Stmt)

namespace Code

def id : Code → CodeId
  | top _ => topCode
  | function f => f.head.code
  | classBody head _ => head.code

def name : Code → String
  | top _ => topName
  | function f => f.head.name
  | classBody head _ => head.name

/-- The statements that are run for the code object. -/
def body : Code → List Stmt
  | top s => s.body
  | function f => f.runBody
  | classBody _ body => body

/-- The statement belongs to the code object: it stands in its body or in a block of another one
that does. -/
inductive Owns (c : Code) : Stmt → Prop
  | body {s : Stmt} : s ∈ c.body → Owns c s
  | block {s t : Stmt} {b : List Stmt} : Owns c s → b ∈ s.blocks → t ∈ b → Owns c t

/-- The except clause belongs to the code object. -/
def OwnsClause (c : Code) (h : Handler) : Prop :=
  ∃ body handlers orelse final p, c.Owns (.tryBlock body handlers orelse final p) ∧ h ∈ handlers

/-- The block is the finally block of a statement that belongs to the code object. -/
def OwnsFinal (c : Code) (final : List Stmt) : Prop :=
  final ≠ [] ∧ ∃ body handlers orelse p, c.Owns (.tryBlock body handlers orelse final p)

/-- The second code object is that of a definition which belongs to the first. -/
inductive Defines (c : Code) : Code → Prop
  | function {head : FunctionHead} {body : List Stmt} :
      c.Owns (.function head body) → Defines c (.function ⟨head, body⟩)
  | classBody {head : ClassHead} {body : List Stmt} :
      c.Owns (.classDef head body) → Defines c (.classBody head body)

/-- The line is one of those that are told for what belongs to the code object: statements with
their decorators, except clauses, and the header of a class. -/
inductive Tells : Code → Nat → Prop
  | stmt {c : Code} {s : Stmt} {n : Nat} : c.Owns s → n ∈ s.toldLines → Tells c n
  | clause {c : Code} {h : Handler} : c.OwnsClause h → Tells c h.pos.line
  | header {head : ClassHead} {body : List Stmt} : Tells (.classBody head body) head.pos.line

/-- The frame is one that begins to run the code object. -/
inductive Begins : Code → Frame → Prop
  | top (s : Script) : Begins (.top s) .top
  | function (f : Function) (locals : ScopeRef) : Begins (.function f) (.ofFunction f locals)
  | classBody (head : ClassHead) (body : List Stmt) (scope : ScopeRef) :
      Begins (.classBody head body) (.ofClass head scope)

variable {c : Code}

theorem Owns.of_block {s : Stmt} {b : List Stmt} (hs : c.Owns s) (hb : b ∈ s.blocks) :
    ∀ t ∈ b, c.Owns t := fun _ ht => .block hs hb ht

theorem Owns.of_clause {h : Handler} (hh : c.OwnsClause h) : ∀ t ∈ h.body, c.Owns t := by
  obtain ⟨body, handlers, orelse, final, p, hs, hmem⟩ := hh
  apply hs.of_block
  simp only [Stmt.blocks, List.cons_append, List.mem_cons, List.mem_append, List.mem_map]
  exact .inr (.inl ⟨h, hmem, rfl⟩)

theorem Owns.of_final {b : List Stmt} (hb : c.OwnsFinal b) : ∀ t ∈ b, c.Owns t := by
  obtain ⟨-, body, handlers, orelse, p, hs⟩ := hb
  apply hs.of_block
  simp [Stmt.blocks]

/-- What may be asked to be run while the code object is running. -/
def Allows (c : Code) : Execution → Prop
  | .block body => ∀ s ∈ body, c.Owns s
  | .stmt s => c.Owns s
  | .whileRounds test body orelse p => c.Owns (.whileLoop test body orelse p)
  | .forRounds target _ body orelse p => ∃ iter, c.Owns (.forLoop target iter body orelse p)
  | .clause _ h => c.OwnsClause h

theorem allows_body (c : Code) : c.Allows (.block c.body) := fun _ hs => .body hs

end Code

/-! ### Values that statements bind -/

theorem Action.bind_bind {σ α β γ : Type} (x : Action σ α) (f : α → Action σ β)
    (g : β → Action σ γ) : x >>= f >>= g = x >>= fun a => f a >>= g := by
  funext m
  simp only [bind_apply]
  cases x m <;> rfl

/-- A computation in two parts has ended normally just if both have. -/
theorem Action.bind_eq_done {σ α β : Type} {x : Action σ α} {f : α → Action σ β}
    {m m' : Machine σ} {b : β} :
    (x >>= f) m = .done b m' ↔ ∃ a m₁, x m = .done a m₁ ∧ f a m₁ = .done b m' := by
  rw [bind_apply]
  constructor
  · intro h
    split at h
    · next a m₁ first => exact ⟨a, m₁, first, h⟩
    · cases h
    · cases h
  · rintro ⟨a, m₁, first, h⟩
    rw [first]
    exact h

namespace Setting

open Footprint.Action

variable {σ : Type} (env : Setting σ) (c : Calls σ)

/-- The value that the definition of a function binds to its name. -/
def makeFunction (head : FunctionHead) (body : List Stmt) : Action σ Value := do
  let decorators ← evalAll c.value head.decorators
  let defaults ← evalAll c.value (head.params.filterMap (·.default))
  let k ← frameKind
  let scope ← read (·.closure? k)
  let v ← edit (Store.newFunction ⟨⟨head, body⟩, defaults, scope⟩)
  decorate c.value head.pos decorators.reverse v

/-- The value that the definition of a class binds to its name, given what runs the body in a
frame. -/
def makeClass (inFrame : Frame → Action σ Unit → Action σ Value) (head : ClassHead)
    (body : List Stmt) : Action σ Value := do
  let decorators ← evalAll c.value head.decorators
  let bases ← evalAll c.value head.bases
  let k ← frameKind
  let closure ← read (·.closure? k)
  let scope ← edit (Store.newScope closure)
  discard (inFrame (.ofClass head scope) (c.block body))
  setPos head.pos
  let made : Value := .classObject head.name scope (bases.any Value.isExceptionBase)
  decorate c.value head.pos decorators.reverse made

/-- The value that an augmented assignment to a name binds to it. -/
def augmentedName (id : String) (p : Position) (op : BinaryOp) (value : Expr) : Action σ Value := do
  let k ← frameKind
  let current ← readAt p (·.resolve k id)
  let operand ← c.eval value
  env.augmented op current operand p

theorem defineFunction_eq (head : FunctionHead) (body : List Stmt) :
    defineFunction c head body = (do store head.name (← makeFunction c head body)) := by
  simp only [makeFunction, bind_bind]
  rfl

theorem defineClass_eq (head : ClassHead) (body : List Stmt) :
    env.defineClass c head body = (do store head.name (← makeClass c env.inFrame head body)) := by
  simp only [makeClass, bind_bind]
  rfl

theorem augment_name_eq (id : String) (p q : Position) (op : BinaryOp) (value : Expr) :
    env.augment c (.name id p) op value q =
      (do store id (← env.augmentedName c id p op value)) := by
  simp only [augmentedName, bind_bind]
  rfl

end Setting

end Footprint
