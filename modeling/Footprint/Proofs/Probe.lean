import Footprint.Proofs.Alike

set_option autoImplicit false

/-!
Runs with a probe. A probe does something of its own each time a name is bound or unbound in the
current frame, each time a frame is to be begun, before it is checked whether there may be one more,
and each time something is not to be done to an expression because it is no target. With a probe
that does nothing a run is the run itself; what holds for two computations that are related as in
`RunRelation` holds for probed ones too if the probes are related.
-/

namespace Footprint

open Footprint.Action Footprint.Setting

/-- What is done to the expression is done to it or to its items. -/
def Expr.isTarget : Expr → Bool
  | .tuple .. | .list .. => true
  | e => e.isSingleTarget

structure Probe (σ : Type) where
  /-- Comes before the name is bound or unbound. -/
  naming : String → Action σ Unit
  /-- Comes before the check on the number of frames. -/
  entering : Action σ Unit
  /-- Comes before the fault is raised that an expression is no target. -/
  rejecting : Fault → Action σ Unit

namespace Probe

section

variable {σ : Type}

/-- The probe that does nothing. -/
def idle : Probe σ := ⟨fun _ => pure (), pure (), fun _ => pure ()⟩

variable (p : Probe σ) (env : Setting σ) (c : Calls σ)

def store (name : String) (v : Value) : Action σ Unit := do
  p.naming name
  Action.store name v

def unbind (name : String) : Action σ Unit := do
  p.naming name
  Action.unbind name

def inFrame (frame : Frame) (body : Action σ Unit) : Action σ Value := do
  p.entering
  env.inFrame frame body

def reject (f : Fault) (q : Position) : Action σ Unit := do
  p.rejecting f
  raiseAt f q

/-! ### Except clauses -/

def bindCaught (f : Failure) (name : Option String) : Action σ Unit :=
  match name, f with
  | some name, .exception kind message _ => do
    let v ← edit (Store.newException kind message)
    p.store name v
  | _, _ => return ()

/-- Attends to a name after `x`, however it has ended. -/
def afterwards (name : String) (x : Action σ Unit) : Action σ Unit := fun m =>
  match x m with
  | .done _ m => p.naming name m
  | .failed f m => (do p.naming name; fail f) m
  | .unfinished m => .unfinished m

def thenForget (name : Option String) (x : Action σ Unit) : Action σ Unit :=
  match name with
  | none => x
  | some n => Action.thenForget (some n) (p.afterwards n x)

def clause (f : Failure) (name : Option String) (body : Action σ Unit) : Action σ Unit := do
  modifyFrame ({ · with reported := false })
  p.bindCaught f name
  p.thenForget name (whileHandling f body)

/-! ### Answering requests -/

def callFunction (r : FunctionRef) (args : List Value) (q : Position)
    (body : Function → Action σ Unit) : Action σ Value := do
  match ← read (·.function? r) with
  | none => raiseAt (.notCallable (Value.function r).typeName) q
  | some f =>
    lift q (checkArity f.function f.defaults.length args.length)
    let locals ← edit (callScope f.scope (boundArguments f.function args f.defaults))
    backAt q (p.inFrame env (.ofFunction f.function locals) (body f.function))

def evaluation : Evaluation → Action σ Value
  | .call (.function r) args q => p.callFunction env r args q fun f => c.block f.runBody
  | t => env.evaluation c t

def placement : Placement → Action σ Unit
  | .assign (.name id _) v => p.store id v
  | .assign target v =>
    if target.isTarget then assign c target v else p.reject .cannotAssign target.pos
  | .delete (.name id _) => p.unbind id
  | .delete target => if target.isTarget then delete c target else p.reject .cannotDelete target.pos

def perform : Stmt → Action σ Unit
  | .function head body => do p.store head.name (← makeFunction c head body)
  | .classDef head body => do p.store head.name (← makeClass c (p.inFrame env) head body)
  | .augment (.name id q) op value _ => do p.store id (← env.augmentedName c id q op value)
  | .augment target op value q =>
    if target.isSingleTarget then env.augment c target op value q else p.reject .cannotAugment q
  | s => env.perform c s

def execution : Execution → Action σ Unit
  | .stmt s =>
    env.reporting do
      setPos s.pos
      env.markLines s.toldLines
      p.perform env c s
  | .clause f h => p.clause f h.name (c.block h.body)
  | t => env.execution c t

/-- What answers requests that are nested at most so deep, with the probe. -/
def calls : Nat → Calls σ
  | 0 => ⟨fun _ => unfinished, fun _ => unfinished, fun _ => unfinished⟩
  | n + 1 => ⟨p.evaluation env (calls n), p.placement (calls n), p.execution env (calls n)⟩

/-- Runs a script from its first statement, given what answers requests. -/
def runWith (script : Script) : Action σ Unit := do
  env.startTimer
  setJump .none
  discard (p.inFrame env .top (c.block script.body))

end

/-! ### The probe that does nothing -/

section

variable {σ : Type} (env : Setting σ) (c : Calls σ)

theorem clause_eq {p : Probe σ} (silent : ∀ n, p.naming n = pure ()) (f : Failure)
    (name : Option String) (x : Action σ Unit) : p.clause f name x = Action.clause f name x := by
  have stored (n : String) (v : Value) : p.store n v = Action.store n v := by
    unfold Probe.store
    rw [silent]
    rfl
  have after (n : String) (x : Action σ Unit) : p.afterwards n x = x := by
    funext m
    unfold afterwards
    rw [silent]
    cases x m <;> rfl
  have bound : p.bindCaught f name = Action.bindCaught f name := by
    cases name with
    | none => rfl
    | some n =>
      cases f with
      | exception kind message q => simp only [Probe.bindCaught, Action.bindCaught, stored]
      | _ => rfl
  have forgets (x : Action σ Unit) : p.thenForget name x = Action.thenForget name x := by
    cases name with
    | none => rfl
    | some n => simp only [Probe.thenForget, after]
  unfold Probe.clause Action.clause
  rw [bound, forgets]

theorem evaluation_idle (t : Evaluation) : idle.evaluation env c t = env.evaluation c t := by
  cases t with
  | expr e => rfl
  | call callee args q => cases callee <;> rfl

theorem placement_idle (t : Placement) : idle.placement c t = Setting.placement c t := by
  cases t with
  | assign target v => cases target <;> rfl
  | delete target => cases target <;> rfl

theorem perform_idle (s : Stmt) : idle.perform env c s = env.perform c s := by
  cases s with
  | function head body => exact (defineFunction_eq c head body).symm
  | classDef head body => exact (defineClass_eq env c head body).symm
  | augment target op value q =>
    cases target with
    | name id p => exact (augment_name_eq env c id p q op value).symm
    | _ => rfl
  | _ => rfl

theorem execution_idle (t : Execution) : idle.execution env c t = env.execution c t := by
  cases t with
  | stmt s =>
    unfold Probe.execution
    simp only [perform_idle]
    rfl
  | clause f h => exact clause_eq (fun _ => rfl) f h.name _
  | block | whileRounds | forRounds => rfl

theorem calls_idle (n : Nat) : idle.calls env n = env.calls n := by
  induction n with
  | zero => rfl
  | succ n ih =>
    unfold Probe.calls
    rw [ih, funext (evaluation_idle env _), funext (placement_idle _),
      funext (execution_idle env _)]
    rfl

end

end Probe

/-! ### Probes on both sides of a relation -/

namespace RunRelation

variable {σ τ : Type}

/-- The relation is kept where the probes come in. -/
structure Attends (R : RunRelation σ τ) (env : Setting σ) (env' : Setting τ) (p : Probe σ)
    (p' : Probe τ) : Prop where
  naming (c : Code) (name : String) : R.expr c (p.naming name) (p'.naming name)
  rejecting (c : Code) (f : Fault) : R.expr c (p.rejecting f) (p'.rejecting f)
  inFrame {c d : Code} {frame : Frame} {x : Action σ Unit} {y : Action τ Unit} : R.known d →
    d.Begins frame → R.stmt d x y → R.expr c (p.inFrame env frame x) (p'.inFrame env' frame y)
  clause {c : Code} (f : Failure) (name : Option String) {x : Action σ Unit} {y : Action τ Unit} :
    R.stmt c x y → R.stmt c (p.clause f name x) (p'.clause f name y)

namespace Closed

variable {R : RunRelation σ τ} {env : Setting σ} {env' : Setting τ} (h : R.Closed env env')
  {p : Probe σ} {p' : Probe τ} (attends : R.Attends env env' p p') {d : Calls σ} {d' : Calls τ}
  {c : Code}

include h attends

theorem storeProbed (name : String) (v : Value) : R.expr c (p.store name v) (p'.store name v) :=
  h.bind (attends.naming c name) fun _ => (h.steps c).store name v

theorem unbindProbed (name : String) : R.expr c (p.unbind name) (p'.unbind name) :=
  h.bind (attends.naming c name) fun _ => (h.steps c).unbind name

theorem rejectProbed (f : Fault) (q : Position) : R.expr c (p.reject f q) (p'.reject f q) :=
  h.bind (attends.rejecting c f) fun _ => (h.steps c).raiseAt f q

variable (agree : R.Agree d d')

include agree

theorem evaluationProbed (known : R.known c) (t : Evaluation) :
    R.expr c (p.evaluation env d t) (p'.evaluation env' d' t) := by
  unfold Probe.evaluation
  split
  · next r args q =>
    apply h.lookup r
    intro found hfound
    cases found with
    | none => exact (h.steps c).raiseAt _ q
    | some f =>
      have inner : R.known (.function f.function) := hfound f rfl
      apply h.bind ((h.steps c).lift q _)
      intro _
      apply h.bind ((h.steps c).edit (Store.keeps_callScope _ _))
      intro locals
      apply h.backAt q
      exact attends.inFrame inner (.function f.function locals)
        (agree.run inner _ (Code.allows_body (.function f.function)))
  · exact h.evaluation agree known _

variable (known : R.known c)

include known

theorem placementProbed (t : Placement) :
    R.expr c (p.placement d t) (p'.placement d' t) := by
  unfold Probe.placement
  split
  · exact h.storeProbed attends _ _
  · next target v _ =>
    split
    · exact h.placement agree known (.assign target v)
    · exact h.rejectProbed attends _ _
  · exact h.unbindProbed attends _
  · next target _ =>
    split
    · exact h.placement agree known (.delete target)
    · exact h.rejectProbed attends _ _

theorem performProbed {s : Stmt} (owned : c.Owns s) :
    R.stmt c (p.perform env d s) (p'.perform env' d' s) := by
  have hv := agree.value_all known
  have steps := h.steps c
  unfold Probe.perform
  split
  · have made := steps.makeFunction hv (fun _ _ => trivial) trivial fun _ _ =>
      h.newFunction _ _ owned
    exact h.ofExpr (h.bind made fun _ => h.storeProbed attends _ _)
  · next head body =>
    have made := h.makeClass agree known owned fun scope _ _ hxy =>
      attends.inFrame (h.known_classBody known owned) (.classBody head body scope) hxy
    exact h.ofExpr (h.bind made fun _ => h.storeProbed attends _ _)
  · exact h.ofExpr (h.bind (steps.augmentedName hv _ _ _ trivial) fun _ =>
      h.storeProbed attends _ _)
  · split
    · exact h.perform agree known owned
    · exact h.ofExpr (h.rejectProbed attends _ _)
  · exact h.perform agree known owned

theorem executionProbed (around : R.Encloses env env') {t : Execution} (allowed : c.Allows t) :
    R.stmt c (p.execution env d t) (p'.execution env' d' t) := by
  cases t with
  | stmt s =>
    have told : ∀ n ∈ s.toldLines, c.Tells n := fun n hn => .stmt allowed hn
    exact around.reporting <| h.andThen (h.setPos c _) fun _ =>
      h.andThen (h.markLines c told) fun _ => h.performProbed attends agree known allowed
  | clause f hd =>
    exact attends.clause f hd.name (agree.run known _ (Code.Owns.of_clause allowed))
  | block | whileRounds | forRounds => exact h.execution agree known around allowed

omit agree known in
/-- All answers with the two probes are related. -/
theorem callsProbed (around : R.Encloses env env')
    (finals : ∀ {c : Code} {x : Action σ Unit} {y : Action τ Unit}, R.stmt c x y → R.final c x y)
    (n : Nat) : R.Agree (p.calls env n) (p'.calls env' n) := by
  induction n with
  | zero => exact h.unanswered fun _ _ _ _ => finals (h.ofExpr (h.steps _).unfinished)
  | succ n ih =>
    constructor
    · exact fun known t => h.evaluationProbed attends ih known t
    · exact fun known t => h.placementProbed attends ih known t
    · exact fun known _ allowed => h.executionProbed attends ih known around allowed
    · exact fun known b owned => finals (h.runBlock ih known (.of_final owned))

end Closed

end RunRelation

end Footprint
