import Footprint.Proofs.Completion
import Footprint.Proofs.MoreSteps

set_option autoImplicit false

/-!
The rules by which statements complete. They know nothing of jumps that are under way in a machine:
a statement completes normally, breaks off or continues a loop, returns a value or raises an
exception, and what is around it says what becomes of that. How values come about, what is done to
targets and what is told is shared with the machine.
-/

namespace Footprint

open Footprint.Action

/-- A computation that the rules share with the machine. More steps never change how it ends, and it
leaves nothing under way. -/
structure Setting.Shared {σ : Type} (env : Setting σ) (α : Type) where
  action : Calls σ → Action σ α
  extends_of_le {n k : Nat} : n ≤ k → Extends (action (env.calls n)) (action (env.calls k))
  settles (n : Nat) : (action (env.calls n)).Settles

/-- What a class is made from, besides its body. -/
structure ClassParts where
  decorators : List Value
  bases : List Value
  scope : ScopeRef

namespace Setting

variable {σ α : Type} (env : Setting σ)

/-! ### What is shared -/

/-- What asks for nothing is shared. -/
def alone (x : Action σ α) (h : x.Settles) : env.Shared α :=
  ⟨fun _ => x, fun _ => .refl x, fun _ => h⟩

/-- What every relation relates to itself that is kept by the parts of running is shared. -/
def sharedBy (c : Code) (x : Calls σ → Action σ α)
    (h : ∀ (R : RunRelation σ σ), R.Closed env env → R.known c → ∀ {d d' : Calls σ}, R.Agree d d' →
      R.expr c (x d) (x d')) : env.Shared α where
  action := x
  extends_of_le hle := h (Extends.relation σ) (Extends.closed env) trivial (env.calls_extends hle)
  settles n := h (settling σ) (settling_closed env) trivial (settling_calls env n)

/-- The value of an expression. -/
def evaluated (e : Expr) : env.Shared Value :=
  env.sharedBy (.top ⟨[]⟩) (·.eval e) fun _ _ known _ _ agree => agree.value known _

/-- Whether the value of an expression is true. -/
def truth (e : Expr) : env.Shared Bool :=
  env.sharedBy (.top ⟨[]⟩) (fun c => do let v ← c.eval e; read (·.isTruthy v))
    fun _ h known _ _ agree => h.bind (agree.value known _) fun _ => (h.steps _).read _

/-- What a for loop goes through. -/
def iterated (e : Expr) (p : Position) : env.Shared Items :=
  env.sharedBy (.top ⟨[]⟩) (fun c => do let v ← c.eval e; readAt p (·.iterate v))
    fun _ h known _ _ agree => h.bind (agree.value known _) fun _ => (h.steps _).readAt p _

def assigned (target : Expr) (v : Value) : env.Shared Unit :=
  env.sharedBy (.top ⟨[]⟩) (·.place (.assign target v)) fun _ _ known _ _ agree =>
    agree.place known _

/-- Whether the class of an except clause catches an exception. -/
def catching (f : Failure) (h : Handler) : env.Shared Bool :=
  env.sharedBy (.top ⟨[]⟩) (fun c => isCaught c.value f h) fun _ closed known _ _ agree =>
    (closed.steps _).isCaught (agree.value_all known) f fun _ _ => trivial

/-- What a statement does that contains no others and does not jump. -/
def performed (s : Stmt) (h : s.isPlain = true) : env.Shared Unit :=
  env.sharedBy (.top ⟨[s]⟩) (env.perform · s) fun _ closed known _ _ agree =>
    closed.plain agree known h (.body List.mem_cons_self)

def classParts (head : ClassHead) : env.Shared ClassParts :=
  env.sharedBy (.top ⟨[]⟩)
    (fun c => do
      let decorators ← evalAll c.value head.decorators
      let bases ← evalAll c.value head.bases
      let k ← frameKind
      let closure ← read (·.closure? k)
      let scope ← edit (Store.newScope closure)
      return ⟨decorators, bases, scope⟩)
    fun _ h known _ _ agree =>
      h.bind ((h.steps _).evalAll (agree.value_all known) fun _ _ => trivial) fun _ =>
        h.bind ((h.steps _).evalAll (agree.value_all known) fun _ _ => trivial) fun _ =>
          h.bind (h.frameKind _) fun _ => h.bind ((h.steps _).read _) fun _ =>
            h.bind ((h.steps _).edit (Store.keeps_newScope _)) fun _ => h.pure _ _

/-- The class when its body has run: decorated and bound to its name. -/
def classBound (head : ClassHead) (parts : ClassParts) : env.Shared Unit :=
  env.sharedBy (.top ⟨[]⟩)
    (fun c => do
      setPos head.pos
      let made : Value :=
        .classObject head.name parts.scope (parts.bases.any Value.isExceptionBase)
      let v ← decorate c.value head.pos parts.decorators.reverse made
      store head.name v)
    fun _ h known _ _ agree => h.bind (h.setPos _ _) fun _ =>
      h.bind ((h.steps _).decorate (agree.value_all known) _ _ trivial) fun _ =>
        (h.steps _).store _ _

/-- The lines of a statement, told. -/
def told (s : Stmt) : env.Shared Unit :=
  env.alone (do setPos s.pos; env.markLines s.toldLines) <| by
    have marks (ns : List Nat) : (env.markLines ns).Settles := by
      induction ns with
      | nil => exact .pure ()
      | cons n ns ih => exact (settles_markLine env n).bind fun _ => ih
    exact Settles.bind (x := setPos s.pos) (fun _ h => h) fun _ => marks _

/-- The line of a loop or an except clause, told. -/
def marked (p : Position) : env.Shared Unit :=
  env.alone (do setPos p; env.markLine p.line)
    (Settles.bind (x := setPos p) (fun _ h => h) fun _ => settles_markLine env p.line)

/-- An exception that comes out of a statement, told. -/
def reported (f : Failure) : env.Shared Unit := env.alone (env.report f) (settles_report env f)

/-- The beginning of an except clause. -/
def bound (f : Failure) (name : Option String) : env.Shared Unit :=
  env.alone (do modifyFrame ({ · with reported := false }); bindCaught f name)
    ((settles_modifyFrame _).bind fun _ =>
      ((settling_closed env).steps (.top ⟨[]⟩)).bindCaught f name)

/-- The beginning of a frame. -/
def begun (frame : Frame) : env.Shared Unit :=
  env.alone (do push frame; env.announce; env.markHeader)
    (Settles.bind (x := push frame) (fun _ h => h) fun _ =>
      (settles_announce env).bind fun _ => settles_markHeader env)

/-- A shared computation ends so, given enough steps. -/
def Comes (x : env.Shared α) (m : Machine σ) (r : Ending σ α) : Prop :=
  ∃ n, x.action (env.calls n) m = r

end Setting

/-! ### The rules -/

/-- What completes. -/
inductive Task {σ : Type} (env : Setting σ) : Type 1
  | complete (o : Completion)
  /-- A shared computation, and then what is to be done with its value. -/
  | first {α : Type} (x : env.Shared α) (next : α → Task env)
  | run (t : Execution)
  /-- A statement whose lines have been told. -/
  | perform (s : Stmt)
  /-- A round of a loop at a position, and what comes after it. -/
  | round (body : List Stmt) (p : Position) (again : Execution)
  /-- A try statement without its finally block. -/
  | covered (body : List Stmt) (handlers : List Handler) (orelse : List Stmt)
  | handle (f : Failure) (handlers : List Handler)
  /-- The body of an except clause that has caught an exception. -/
  | handling (f : Failure) (h : Handler)
  /-- A body in a frame of its own. -/
  | activation (frame : Frame) (body : List Stmt)
  | classBody (head : ClassHead) (body : List Stmt) (parts : ClassParts)

namespace Task

variable {σ : Type} {env : Setting σ}

abbrev block (body : List Stmt) : Task env := .run (.block body)

/-- A shared computation that is all there is to do. -/
abbrev only (x : env.Shared Unit) : Task env := .first x fun _ => .complete .normal

end Task

/-- How something completes, from a machine to another one. Neither of them has a jump under way. -/
inductive Completes {σ : Type} (env : Setting σ) :
    Task env → Machine σ → Completion → Machine σ → Prop
  | complete (o : Completion) (m : Machine σ) : Completes env (.complete o) m o m
  | first {α : Type} {x : env.Shared α} {next : α → Task env} {m m₁ m₂ : Machine σ} {a : α}
      {o : Completion} : env.Comes x m (.done a m₁) → Completes env (next a) m₁ o m₂ →
      Completes env (.first x next) m o m₂
  | firstRaises {α : Type} {x : env.Shared α} {next : α → Task env} {m m₁ : Machine σ}
      {f : Failure} : env.Comes x m (.failed f m₁) →
      Completes env (.first x next) m (.raised f) m₁
  /- Blocks -/
  | emptyBlock (m : Machine σ) : Completes env (.block []) m .normal m
  | nextStmt {s : Stmt} {rest : List Stmt} {m m₁ m₂ : Machine σ} {o : Completion} :
      Completes env (.run (.stmt s)) m .normal m₁ → Completes env (.block rest) m₁ o m₂ →
      Completes env (.block (s :: rest)) m o m₂
  | lastStmt {s : Stmt} {rest : List Stmt} {m m₁ : Machine σ} {o : Completion} :
      Completes env (.run (.stmt s)) m o m₁ → o ≠ .normal →
      Completes env (.block (s :: rest)) m o m₁
  /- Statements. An exception that comes out of one is reported. -/
  | stmt {s : Stmt} {m m₁ : Machine σ} {o : Completion} :
      Completes env (.first (env.told s) fun _ => .perform s) m o m₁ → (∀ f, o ≠ .raised f) →
      Completes env (.run (.stmt s)) m o m₁
  | stmtRaises {s : Stmt} {m m₁ m₂ : Machine σ} {f : Failure} {o : Completion} :
      Completes env (.first (env.told s) fun _ => .perform s) m (.raised f) m₁ →
      Completes env (.first (env.reported f) fun _ => .complete (.raised f)) m₁ o m₂ →
      Completes env (.run (.stmt s)) m o m₂
  | plain {s : Stmt} (h : s.isPlain = true) {m m₁ : Machine σ} {o : Completion} :
      Completes env (.only (env.performed s h)) m o m₁ → Completes env (.perform s) m o m₁
  | ret (p : Position) (m : Machine σ) :
      Completes env (.perform (.ret none p)) m (.returned .none) m
  | retValue {e : Expr} (p : Position) {m m₁ : Machine σ} {o : Completion} :
      Completes env (.first (env.evaluated e) fun v => .complete (.returned v)) m o m₁ →
      Completes env (.perform (.ret (some e) p)) m o m₁
  | brk (p : Position) (m : Machine σ) : Completes env (.perform (.brk p)) m .broken m
  | cont (p : Position) (m : Machine σ) : Completes env (.perform (.cont p)) m .continued m
  | cond {test : Expr} {body orelse : List Stmt} (p : Position) {m m₁ : Machine σ}
      {o : Completion} :
      Completes env (.first (env.truth test) fun b => .block (if b then body else orelse)) m o m₁ →
      Completes env (.perform (.cond test body orelse p)) m o m₁
  | classDef {head : ClassHead} {body : List Stmt} {m m₁ : Machine σ} {o : Completion} :
      Completes env (.first (env.classParts head) fun parts => .classBody head body parts) m o m₁ →
      Completes env (.perform (.classDef head body)) m o m₁
  /- Loops. The else block runs only when the test is false or no item is left. -/
  | whileLoop {test : Expr} {body orelse : List Stmt} {p : Position} {m m₁ : Machine σ}
      {o : Completion} : Completes env (.run (.whileRounds test body orelse p)) m o m₁ →
      Completes env (.perform (.whileLoop test body orelse p)) m o m₁
  | whileRounds {test : Expr} {body orelse : List Stmt} {p : Position} {m m₁ : Machine σ}
      {o : Completion} :
      Completes env (.first (env.truth test) fun b =>
        if b then .round body p (.whileRounds test body orelse p) else .block orelse) m o m₁ →
      Completes env (.run (.whileRounds test body orelse p)) m o m₁
  | forLoop {target iter : Expr} {body orelse : List Stmt} {p : Position} {m m₁ : Machine σ}
      {o : Completion} :
      Completes env (.first (env.iterated iter p) fun items =>
        .run (.forRounds target items body orelse p)) m o m₁ →
      Completes env (.perform (.forLoop target iter body orelse p)) m o m₁
  | forEnd {target : Expr} {items : Items} {body orelse : List Stmt} {p : Position}
      {m m₁ : Machine σ} {o : Completion} : items.next? = none →
      Completes env (.block orelse) m o m₁ →
      Completes env (.run (.forRounds target items body orelse p)) m o m₁
  | forItem {target : Expr} {items rest : Items} {v : Value} {body orelse : List Stmt}
      {p : Position} {m m₁ : Machine σ} {o : Completion} : items.next? = some (v, rest) →
      Completes env (.first (env.assigned target v) fun _ =>
        .round body p (.forRounds target rest body orelse p)) m o m₁ →
      Completes env (.run (.forRounds target items body orelse p)) m o m₁
  | roundAgain {body : List Stmt} {p : Position} {again : Execution} {m m₁ m₂ : Machine σ}
      {o o' : Completion} : Completes env (.block body) m o m₁ →
      o = .normal ∨ o = .continued →
      Completes env (.first (env.marked p) fun _ => .run again) m₁ o' m₂ →
      Completes env (.round body p again) m o' m₂
  | roundBroken {body : List Stmt} {p : Position} {again : Execution} {m m₁ : Machine σ} :
      Completes env (.block body) m .broken m₁ → Completes env (.round body p again) m .normal m₁
  | roundReturns {body : List Stmt} {p : Position} {again : Execution} {m m₁ : Machine σ}
      {v : Value} : Completes env (.block body) m (.returned v) m₁ →
      Completes env (.round body p again) m (.returned v) m₁
  | roundRaises {body : List Stmt} {p : Position} {again : Execution} {m m₁ : Machine σ}
      {f : Failure} : Completes env (.block body) m (.raised f) m₁ →
      Completes env (.round body p again) m (.raised f) m₁
  /- Try statements. A finally block runs once, whatever there was before it. -/
  | tryOnly {body orelse : List Stmt} {handlers : List Handler} (p : Position)
      {m m₁ : Machine σ} {o : Completion} : Completes env (.covered body handlers orelse) m o m₁ →
      Completes env (.perform (.tryBlock body handlers orelse [] p)) m o m₁
  | tryFinally {body orelse final : List Stmt} {handlers : List Handler} (p : Position)
      {m m₁ m₂ : Machine σ} {o last : Completion} : final ≠ [] →
      Completes env (.covered body handlers orelse) m o m₁ →
      Completes env (.block final) m₁ last m₂ →
      Completes env (.perform (.tryBlock body handlers orelse final p)) m (o.lastly last) m₂
  | bodyNormal {body orelse : List Stmt} (handlers : List Handler) {m m₁ m₂ : Machine σ}
      {o : Completion} : Completes env (.block body) m .normal m₁ →
      Completes env (.block orelse) m₁ o m₂ →
      Completes env (.covered body handlers orelse) m o m₂
  | bodyJumps {body : List Stmt} (handlers : List Handler) (orelse : List Stmt) {m m₁ : Machine σ}
      {o : Completion} : Completes env (.block body) m o m₁ → o ≠ .normal → (∀ f, o ≠ .raised f) →
      Completes env (.covered body handlers orelse) m o m₁
  | bodyCaught {body : List Stmt} {handlers : List Handler} (orelse : List Stmt)
      {m m₁ m₂ : Machine σ} {f : Failure} {o : Completion} :
      Completes env (.block body) m (.raised f) m₁ → f.isCatchable = true → handlers ≠ [] →
      Completes env (.handle f handlers) m₁ o m₂ →
      Completes env (.covered body handlers orelse) m o m₂
  | bodyRaises {body : List Stmt} {handlers : List Handler} (orelse : List Stmt)
      {m m₁ : Machine σ} {f : Failure} : Completes env (.block body) m (.raised f) m₁ →
      f.isCatchable = false ∨ handlers = [] →
      Completes env (.covered body handlers orelse) m (.raised f) m₁
  | unhandled (f : Failure) (m : Machine σ) : Completes env (.handle f []) m (.raised f) m
  | handle {f : Failure} {h : Handler} {rest : List Handler} {m m₁ : Machine σ} {o : Completion} :
      Completes env (.first (env.marked h.pos) fun _ => .first (env.catching f h) fun b =>
        if b then .run (.clause f h) else .handle f rest) m o m₁ →
      Completes env (.handle f (h :: rest)) m o m₁
  | clause {f : Failure} {h : Handler} {m m₁ : Machine σ} {o : Completion} :
      Completes env (.first (env.bound f h.name) fun _ => .handling f h) m o m₁ →
      Completes env (.run (.clause f h)) m o m₁
  | handling {f : Failure} {h : Handler} {m m₁ : Machine σ} {o : Completion} :
      Completes env (.block h.body) { m with handling := f :: m.handling } o m₁ →
      Completes env (.handling f h) m o
        (Machine.forget? { m₁ with handling := m₁.handling.tail } h.name)
  /- Frames. No jump leaves one. -/
  | tooDeep (frame : Frame) (body : List Stmt) {m : Machine σ} :
      env.limits.maxDepth ≤ m.stack.size →
      Completes env (.activation frame body) m (.raised (.ofFault .recursionLimit m.pos)) m
  | activation {frame : Frame} {body : List Stmt} {m m₁ m₂ : Machine σ} {o : Completion}
      {v : Value} : m.stack.size < env.limits.maxDepth →
      Completes env (.first (env.begun frame) fun _ => .block body) m o m₁ →
      env.finish (o.value m₁) = .done v m₂ →
      Completes env (.activation frame body) m (.returned v) m₂
  | activationRaises {frame : Frame} {body : List Stmt} {m m₁ m₂ : Machine σ} {o : Completion}
      {f : Failure} : m.stack.size < env.limits.maxDepth →
      Completes env (.first (env.begun frame) fun _ => .block body) m o m₁ →
      env.finish (o.value m₁) = .failed f m₂ →
      Completes env (.activation frame body) m (.raised f) m₂
  | classBody {head : ClassHead} {body : List Stmt} {parts : ClassParts} {m m₁ m₂ : Machine σ}
      {v : Value} {o : Completion} :
      Completes env (.activation (.ofClass head parts.scope) body) m (.returned v) m₁ →
      Completes env (.only (env.classBound head parts)) m₁ o m₂ →
      Completes env (.classBody head body parts) m o m₂
  | classRaises {head : ClassHead} {body : List Stmt} {parts : ClassParts} {m m₁ : Machine σ}
      {f : Failure} :
      Completes env (.activation (.ofClass head parts.scope) body) m (.raised f) m₁ →
      Completes env (.classBody head body parts) m (.raised f) m₁

end Footprint
