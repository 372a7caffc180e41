import Footprint.Proofs.StepRelation

set_option autoImplicit false

/-!
Relations between computations on two machines, one for each code object. A relation that is kept by
the parts of which running is made relates all that two settings answer to the same request: this is
proved here once, by going through the rules of running, and all that is said of whole runs
elsewhere is an instance of it.
-/

namespace Footprint

/-- Relations between computations: `expr` for those that leave no jump under way, `stmt` for
statements, `final` for finally blocks. They matter for the `known` code objects only. -/
structure RunRelation (σ τ : Type) where
  known : Code → Prop
  expr : Code → ∀ {α : Type}, Action σ α → Action τ α → Prop
  stmt : Code → Action σ Unit → Action τ Unit → Prop
  final : Code → Action σ Unit → Action τ Unit → Prop

namespace RunRelation

open Footprint.Action Footprint.Setting

variable {σ τ α β : Type}

/-- The relations are kept by the parts of which running is made. -/
structure Closed (R : RunRelation σ τ) (env : Setting σ) (env' : Setting τ) : Prop where
  pure (c : Code) {α : Type} (a : α) : R.expr c (pure a : Action σ α) (pure a)
  bind {c : Code} {α β : Type} {x : Action σ α} {y : Action τ α} {f : α → Action σ β}
    {g : α → Action τ β} : R.expr c x y → (∀ a, R.expr c (f a) (g a)) →
    R.expr c (x >>= f) (y >>= g)
  observe (c : Code) {α : Type} (f : Store → Option (Except Failure α)) :
    R.expr c (observe f) (observe f)
  /-- Changes of the store leave the functions in it as they are. -/
  editAt (c : Code) {α : Type} (p : Position) {plan : Store → Except Fault (Edit α)}
    (keeps : ∀ s e, plan s = .ok e → (e s).2.functions = s.functions) :
    R.expr c (editAt p plan) (editAt p plan)
  newFunction {c : Code} {head : FunctionHead} {body : List Stmt} (defaults : List Value)
    (scope : Option ScopeRef) : c.Owns (.function head body) →
    R.expr c (edit (Store.newFunction ⟨⟨head, body⟩, defaults, scope⟩))
      (edit (Store.newFunction ⟨⟨head, body⟩, defaults, scope⟩))
  frameKind (c : Code) : R.expr c frameKind frameKind
  getPos (c : Code) : R.expr c getPos getPos
  setPos (c : Code) (p : Position) : R.expr c (setPos p) (setPos p)
  write (c : Code) (text : String) : R.expr c (write text) (write text)
  reraise (c : Code) (p : Position) : R.expr c (reraise p) (reraise p)
  checkDeadline (c : Code) : R.expr c env.checkDeadline env'.checkDeadline
  markLine {c : Code} {n : Nat} : c.Tells n → R.expr c (env.markLine n) (env'.markLine n)
  /-- Only known functions are found in the store. -/
  lookup {c : Code} {α : Type} (r : FunctionRef) {x : Option Closure → Action σ α}
    {y : Option Closure → Action τ α} :
    (∀ found, (∀ f ∈ found, R.known (.function f.function)) → R.expr c (x found) (y found)) →
    R.expr c (read (·.function? r) >>= x) (read (·.function? r) >>= y)
  inFrame {c d : Code} {frame : Frame} {x : Action σ Unit} {y : Action τ Unit} : R.known d →
    d.Begins frame → R.stmt d x y → R.expr c (env.inFrame frame x) (env'.inFrame frame y)
  backAt {c : Code} {α : Type} {x : Action σ α} {y : Action τ α} (p : Position) : R.expr c x y →
    R.expr c (backAt p x) (backAt p y)
  known_classBody {c : Code} {head : ClassHead} {body : List Stmt} : R.known c →
    c.Owns (.classDef head body) → R.known (.classBody head body)
  ofExpr {c : Code} {x : Action σ Unit} {y : Action τ Unit} : R.expr c x y → R.stmt c x y
  andThen {c : Code} {α : Type} {x : Action σ α} {y : Action τ α} {f : α → Action σ Unit}
    {g : α → Action τ Unit} : R.expr c x y → (∀ a, R.stmt c (f a) (g a)) →
    R.stmt c (x >>= f) (y >>= g)
  setJump (c : Code) (j : Jump) : R.stmt c (setJump j) (setJump j)
  giveBack (c : Code) (v : Value) : R.stmt c (giveBack v) (giveBack v)
  /-- What follows a failure does nothing more about one that the script cannot catch. -/
  proceed {c : Code} {x y : Action σ Unit} {x' y' : Action τ Unit} {h : Failure → Action σ Unit}
    {h' : Failure → Action τ Unit} : R.stmt c x x' → R.stmt c y y' →
    (∀ f, R.stmt c (h f) (h' f)) →
    (∀ f, f.isCatchable = false → h f = fail f ∧ h' f = fail f) →
    R.stmt c (proceed x y h) (proceed x' y' h')
  round {c : Code} {x y : Action σ Unit} {x' y' : Action τ Unit} : R.stmt c x x' → R.stmt c y y' →
    R.stmt c (round x y) (round x' y')
  lastly {c : Code} {x y : Action σ Unit} {x' y' : Action τ Unit} : R.stmt c x x' →
    R.final c y y' → R.stmt c (lastly x y) (lastly x' y')

/-- The relation for statements is kept by what goes around them and around the bodies of except
clauses. -/
structure Encloses (R : RunRelation σ τ) (env : Setting σ) (env' : Setting τ) : Prop where
  reporting {c : Code} {x : Action σ Unit} {y : Action τ Unit} : R.stmt c x y →
    R.stmt c (env.reporting x) (env'.reporting y)
  clause {c : Code} (f : Failure) (name : Option String) {x : Action σ Unit} {y : Action τ Unit} :
    R.stmt c x y → R.stmt c (clause f name x) (clause f name y)

namespace Closed

variable {R : RunRelation σ τ} {env : Setting σ} {env' : Setting τ} (h : R.Closed env env')
  (c : Code)

include h

/-- The relation for what leaves no jump under way is kept by the steps of running. -/
theorem steps : StepRelation (R.expr c) env env' where
  pure := h.pure c
  bind := h.bind
  observe := h.observe c
  editAt := h.editAt c
  frameKind := h.frameKind c
  getPos := h.getPos c
  write := h.write c
  reraise := h.reraise c
  checkDeadline := h.checkDeadline c

theorem markLines {ns : List Nat} (hns : ∀ n ∈ ns, c.Tells n) :
    R.expr c (env.markLines ns) (env'.markLines ns) := by
  induction ns with
  | nil => exact h.pure c ()
  | cons n ns ih =>
    apply h.bind (h.markLine (hns n List.mem_cons_self))
    intro _
    exact ih fun m hm => hns m (List.mem_cons_of_mem _ hm)

theorem callFunction (r : FunctionRef) (args : List Value) (p : Position)
    {x : Function → Action σ Unit} {y : Function → Action τ Unit}
    (hxy : ∀ f, R.known (.function f) → R.stmt (.function f) (x f) (y f)) :
    R.expr c (env.callFunction r args p x) (env'.callFunction r args p y) := by
  apply h.lookup r
  intro found hfound
  cases found with
  | none => exact (h.steps c).raiseAt _ p
  | some f =>
    have known : R.known (.function f.function) := hfound f rfl
    apply h.bind ((h.steps c).lift p _)
    intro _
    apply h.bind ((h.steps c).edit (Store.keeps_callScope _ _))
    intro locals
    apply h.backAt p
    exact h.inFrame known (.function f.function locals) (hxy f.function known)

end Closed

/-- Nothing is told of a failure that the script cannot catch. -/
theorem report_fail (env : Setting σ) {f : Failure} (uncatchable : f.isCatchable = false) :
    (do env.report f; Action.fail f : Action σ Unit) = Action.fail f := by
  funext m
  unfold Setting.report
  rw [uncatchable]
  rfl

/-- What keeps the report of an exception keeps statements with it. -/
theorem Closed.reporting {R : RunRelation σ τ} {env : Setting σ} {env' : Setting τ}
    (h : R.Closed env env') {c : Code} (report : ∀ f, R.expr c (env.report f) (env'.report f))
    {x : Action σ Unit} {y : Action τ Unit} (hxy : R.stmt c x y) :
    R.stmt c (env.reporting x) (env'.reporting y) := by
  refine h.proceed hxy (h.ofExpr (h.pure c ())) (fun f => ?_) fun f uncatchable => ?_
  · exact h.ofExpr (h.bind (report f) fun _ => (h.steps c).fail f)
  · exact ⟨report_fail env uncatchable, report_fail env' uncatchable⟩

/-! ### Requests -/

/-- The answers to all requests that may be made while a known code object is running are
related. -/
structure Agree (R : RunRelation σ τ) (d : Calls σ) (d' : Calls τ) : Prop where
  value {c : Code} : R.known c → ∀ t, R.expr c (d.value t) (d'.value t)
  place {c : Code} : R.known c → ∀ t, R.expr c (d.place t) (d'.place t)
  run {c : Code} : R.known c → ∀ t, c.Allows t → R.stmt c (d.run t) (d'.run t)
  final {c : Code} : R.known c → ∀ b, c.OwnsFinal b → R.final c (d.block b) (d'.block b)

theorem Agree.value_all {R : RunRelation σ τ} {d : Calls σ} {d' : Calls τ} (agree : R.Agree d d')
    {c : Code} (known : R.known c) (t : Evaluation) (_ : Reach.all.Asks t) :
    R.expr c (d.value t) (d'.value t) := agree.value known t

theorem Agree.place_all {R : RunRelation σ τ} {d : Calls σ} {d' : Calls τ} (agree : R.Agree d d')
    {c : Code} (known : R.known c) (t : Placement) (_ : Reach.all.Places t) :
    R.expr c (d.place t) (d'.place t) := agree.place known t

theorem Agree.block {R : RunRelation σ τ} {d : Calls σ} {d' : Calls τ} (agree : R.Agree d d')
    {c : Code} (known : R.known c) {s : Stmt} (owned : c.Owns s) {b : List Stmt}
    (hb : b ∈ s.blocks) : R.stmt c (d.block b) (d'.block b) :=
  agree.run known _ (owned.of_block hb)

namespace Closed

variable {R : RunRelation σ τ} {env : Setting σ} {env' : Setting τ} (h : R.Closed env env')
  {d : Calls σ} {d' : Calls τ} {c : Code}

include h

section Requests

variable (agree : R.Agree d d')

include agree

theorem callValue (callee : Value) (args : List Value) (p : Position) :
    R.expr c (env.callValue d callee args p) (env'.callValue d' callee args p) := by
  unfold Setting.callValue
  split
  · exact h.callFunction c _ args p fun f hf => agree.run hf _ (Code.allows_body (.function f))
  · exact (h.steps c).callBuiltin _ args p
  · exact h.editAt c p fun s _ he => Store.keeps_callMethod he s
  · exact (h.steps c).instantiate _ args
  · exact (h.steps c).instantiate _ args
  · exact (h.steps c).raiseAt _ p
  · exact (h.steps c).raiseAt _ p

variable (known : R.known c)

include known

theorem evaluation (t : Evaluation) :
    R.expr c (env.evaluation d t) (env'.evaluation d' t) := by
  cases t with
  | expr e => exact (h.steps c).evalExpr (agree.value_all known) trivial
  | call callee args p => exact h.callValue agree callee args p

theorem placement (t : Placement) : R.expr c (placement d t) (placement d' t) := by
  have placed : Reach.all.Places t := by cases t <;> trivial
  exact (h.steps c).placement (agree.value_all known) (agree.place_all known) placed

/-! ### Statements -/

theorem makeClass {run : Frame → Action σ Unit → Action σ Value}
    {run' : Frame → Action τ Unit → Action τ Value} {head : ClassHead} {body : List Stmt}
    (owned : c.Owns (.classDef head body))
    (inFrame : ∀ scope {x : Action σ Unit} {y : Action τ Unit},
      R.stmt (.classBody head body) x y →
      R.expr c (run (.ofClass head scope) x) (run' (.ofClass head scope) y)) :
    R.expr c (makeClass d run head body) (makeClass d' run' head body) := by
  have hv := agree.value_all known
  have hbody : R.known (.classBody head body) := h.known_classBody known owned
  have steps := h.steps c
  exact h.bind (steps.evalAll hv fun _ _ => trivial) fun _ =>
    h.bind (steps.evalAll hv fun _ _ => trivial) fun _ =>
      h.bind (h.frameKind c) fun _ => h.bind (steps.read _) fun _ =>
        h.bind (steps.edit (Store.keeps_newScope _)) fun scope =>
          h.bind (steps.discard (inFrame scope (agree.run hbody _ (Code.allows_body _)))) fun _ =>
            h.bind (h.setPos c _) fun _ => steps.decorate hv _ _ trivial

theorem defineClass {head : ClassHead} {body : List Stmt} (owned : c.Owns (.classDef head body)) :
    R.expr c (env.defineClass d head body) (env'.defineClass d' head body) := by
  rw [defineClass_eq, defineClass_eq]
  refine h.bind (h.makeClass agree known owned fun scope x y hxy => ?_) fun _ =>
    (h.steps c).store _ _
  exact h.inFrame (h.known_classBody known owned) (.classBody head body scope) hxy

theorem handle (f : Failure) {handlers : List Handler}
    (owned : ∀ hd ∈ handlers, c.OwnsClause hd) :
    R.stmt c (env.handle d.value d.run f handlers) (env'.handle d'.value d'.run f handlers) := by
  induction handlers with
  | nil => exact h.ofExpr ((h.steps c).fail f)
  | cons hd hs ih =>
    have hhd : c.OwnsClause hd := owned hd List.mem_cons_self
    refine h.andThen (h.setPos c hd.pos) fun _ => h.andThen (h.markLine (.clause hhd)) fun _ =>
      h.andThen ((h.steps c).isCaught (agree.value_all known) f fun _ _ => trivial) fun caught => ?_
    split
    · exact agree.run known (.clause f hd) hhd
    · exact ih fun k hk => owned k (List.mem_cons_of_mem _ hk)

theorem tryBlock {body : List Stmt} {handlers : List Handler} {orelse final : List Stmt}
    {p : Position} (owned : c.Owns (.tryBlock body handlers orelse final p)) :
    R.stmt c (env.tryBlock d body handlers orelse final)
      (env'.tryBlock d' body handlers orelse final) := by
  have hblock {b : List Stmt} (hb : b ∈ (Stmt.tryBlock body handlers orelse final p).blocks) :=
    agree.block known owned hb
  have caught (f : Failure) : R.stmt c
      (if f.isCatchable && !handlers.isEmpty then env.handle d.value d.run f handlers
        else Action.fail f)
      (if f.isCatchable && !handlers.isEmpty then env'.handle d'.value d'.run f handlers
        else Action.fail f) := by
    split
    · exact h.handle agree known f fun hd hmem => ⟨_, _, _, _, _, owned, hmem⟩
    · exact h.ofExpr ((h.steps c).fail f)
  have covered := h.proceed (hblock (b := body) (by simp [Stmt.blocks]))
    (hblock (b := orelse) (by simp [Stmt.blocks])) caught fun f uncatchable => by
      rw [uncatchable]
      exact ⟨rfl, rfl⟩
  unfold Setting.tryBlock
  split
  · exact covered
  · next nonempty =>
    refine h.lastly covered (agree.final known final ⟨?_, body, handlers, orelse, p, owned⟩)
    rintro rfl
    exact nonempty rfl

theorem plain {s : Stmt} (plain : s.isPlain = true) (owned : c.Owns s) :
    R.expr c (env.perform d s) (env'.perform d' s) :=
  (h.steps c).plain (agree.value_all known) (agree.place_all known) plain (fun _ _ => trivial)
    trivial fun _ _ same => fun _ _ => h.newFunction _ _ (same ▸ owned)

theorem perform {s : Stmt} (owned : c.Owns s) :
    R.stmt c (env.perform d s) (env'.perform d' s) := by
  have hv := agree.value known
  cases s with
  | classDef head body => exact h.ofExpr (h.defineClass agree known owned)
  | ret value p =>
    cases value with
    | none => exact h.giveBack c _
    | some e => exact h.andThen (hv _) fun v => h.giveBack c v
  | forLoop target iter body orelse p =>
    exact h.andThen (hv _) fun _ => h.andThen ((h.steps c).readAt p _) fun items =>
      agree.run known (.forRounds target items body orelse p) ⟨iter, owned⟩
  | whileLoop test body orelse p => exact agree.run known (.whileRounds test body orelse p) owned
  | cond test body orelse p =>
    refine h.andThen (hv _) fun _ => h.andThen ((h.steps c).read _) fun truth => ?_
    split
    · exact agree.block known owned (by simp [Stmt.blocks])
    · exact agree.block known owned (by simp [Stmt.blocks])
  | tryBlock body handlers orelse final p => exact h.tryBlock agree known owned
  | brk p => exact h.setJump c .brk
  | cont p => exact h.setJump c .cont
  | _ => exact h.ofExpr (h.plain agree known rfl owned)

/-- A statement without the report of an exception that comes out of it. -/
theorem performTold {s : Stmt} (owned : c.Owns s) :
    R.stmt c (do Action.setPos s.pos; env.markLines s.toldLines; env.perform d s)
      (do Action.setPos s.pos; env'.markLines s.toldLines; env'.perform d' s) := by
  have told : ∀ n ∈ s.toldLines, c.Tells n := fun n hn => .stmt owned hn
  exact h.andThen (h.setPos c _) fun _ => h.andThen (h.markLines c told) fun _ =>
    h.perform agree known owned

theorem runBlock {body : List Stmt} (owned : ∀ s ∈ body, c.Owns s) :
    R.stmt c (runBlock d.run body) (runBlock d'.run body) := by
  induction body with
  | nil => exact h.ofExpr (h.pure c ())
  | cons s rest ih =>
    refine h.proceed (agree.run known (.stmt s) (owned s List.mem_cons_self)) ?_ (fun f => ?_) ?_
    · exact ih fun t ht => owned t (List.mem_cons_of_mem _ ht)
    · exact h.ofExpr ((h.steps c).fail f)
    · exact fun _ _ => ⟨rfl, rfl⟩

theorem whileRounds {test : Expr} {body orelse : List Stmt} {p : Position}
    (owned : c.Owns (.whileLoop test body orelse p)) :
    R.stmt c (env.whileRounds d test body orelse p) (env'.whileRounds d' test body orelse p) := by
  have told : c.Tells p.line := .stmt owned (by simp [Stmt.toldLines, Stmt.isDeclaration, Stmt.pos])
  refine h.andThen (agree.value known _) fun _ => h.andThen ((h.steps c).read _) fun truth => ?_
  split
  · exact h.round (agree.block known owned (by simp [Stmt.blocks]))
      (h.andThen (h.setPos c p) fun _ => h.andThen (h.markLine told) fun _ =>
        agree.run known (.whileRounds test body orelse p) owned)
  · exact agree.block known owned (by simp [Stmt.blocks])

theorem forRounds {target iter : Expr} (items : Items) {body orelse : List Stmt} {p : Position}
    (owned : c.Owns (.forLoop target iter body orelse p)) :
    R.stmt c (env.forRounds d target items body orelse p)
      (env'.forRounds d' target items body orelse p) := by
  have told : c.Tells p.line := .stmt owned (by simp [Stmt.toldLines, Stmt.isDeclaration, Stmt.pos])
  unfold Setting.forRounds
  split
  · exact agree.block known owned (by simp [Stmt.blocks])
  · apply h.andThen (agree.place known _)
    intro _
    exact h.round (agree.block known owned (by simp [Stmt.blocks]))
      (h.andThen (h.setPos c p) fun _ => h.andThen (h.markLine told) fun _ =>
        agree.run known (.forRounds target _ body orelse p) ⟨iter, owned⟩)

/-- Related answers to further requests make the answer to a request for statements related. -/
theorem execution (around : R.Encloses env env') {t : Execution} (allowed : c.Allows t) :
    R.stmt c (env.execution d t) (env'.execution d' t) := by
  cases t with
  | block body => exact h.runBlock agree known allowed
  | stmt s => exact around.reporting (h.performTold agree known allowed)
  | whileRounds test body orelse p => exact h.whileRounds agree known allowed
  | forRounds target items body orelse p =>
    obtain ⟨iter, owned⟩ := allowed
    exact h.forRounds agree known items owned
  | clause f hd =>
    exact around.clause f hd.name (agree.run known _ (Code.Owns.of_clause allowed))

end Requests

/-- Where no steps are left nothing is answered. -/
theorem unanswered (finals : ∀ (c : Code) (b : List Stmt), R.known c → c.OwnsFinal b →
      R.final c Action.unfinished Action.unfinished) :
    R.Agree (env.calls 0) (env'.calls 0) where
  value _ _ := (h.steps _).unfinished
  place _ _ := (h.steps _).unfinished
  run _ _ _ := h.ofExpr (h.steps _).unfinished
  final known b owned := finals _ b known owned

/-- Related answers to further requests make the answers to requests related. -/
theorem next (around : R.Encloses env env')
    (finals : ∀ (c : Code) (b : List Stmt), R.known c → c.OwnsFinal b →
      R.stmt c (env.execution d (.block b)) (env'.execution d' (.block b)) →
      R.final c (env.execution d (.block b)) (env'.execution d' (.block b)))
    (agree : R.Agree d d') :
    R.Agree ⟨env.evaluation d, Setting.placement d, env.execution d⟩
      ⟨env'.evaluation d', Setting.placement d', env'.execution d'⟩ where
  value known t := h.evaluation agree known t
  place known t := h.placement agree known t
  run known _ allowed := h.execution agree known around allowed
  final {c} known b owned := finals c b known owned (h.runBlock agree known (.of_final owned))

/-- All answers of two settings to the same request are related, where finally blocks are like all
other ones. -/
theorem calls (around : R.Encloses env env')
    (finals : ∀ {c : Code} {x : Action σ Unit} {y : Action τ Unit}, R.stmt c x y → R.final c x y)
    (n : Nat) : R.Agree (env.calls n) (env'.calls n) := by
  induction n with
  | zero => exact h.unanswered fun _ _ _ _ => finals (h.ofExpr (h.steps _).unfinished)
  | succ n ih => exact h.next around (fun _ _ _ _ => finals) ih

end Closed

end RunRelation

end Footprint
