import Footprint.Proofs.Alongside

set_option autoImplicit false

/-!
Which script lines the output names. `print` writes from the line where the run stands. Within a
statement that is the line of the statement or that of a call in it from which the run has come
back, so that it need not be the line of the call that prints. Runs are compared with ones that go
to the line of a call expression to print.
-/

namespace Footprint

/-! ### Lines of a script -/

def Node.callLine? : Node → Option Nat
  | expr (.call _ _ p) => some p.line
  | _ => none

/-- The lines of the calls in an expression. -/
def Expr.callLines (e : Expr) : List Nat := (Node.expr e).walk.filterMap Node.callLine?

/-- Where the run may stand while expressions of a statement or an except clause are evaluated: on
its line or that of a call in one of them. -/
def Node.standing : Node → List Nat
  | stmt s => s.pos.line :: s.operands.flatMap Expr.callLines
  | handler h => h.pos.line :: h.kind.toList.flatMap Expr.callLines
  | _ => []

namespace Script

/-- The lines are the same or belong to one statement or except clause. -/
def OneNode (s : Script) (l l' : Nat) : Prop :=
  l = l' ∨ ∃ n ∈ (Node.script s).walk, l ∈ n.standing ∧ l' ∈ n.standing

/-- Calls in a statement or an except clause are on its own line. -/
def IsLevel (s : Script) : Prop :=
  ∀ n ∈ (Node.script s).walk, ∀ l ∈ n.standing, ∀ l' ∈ n.standing, l = l'

instance (s : Script) : Decidable s.IsLevel :=
  inferInstanceAs (Decidable (∀ n ∈ (Node.script s).walk, ∀ l ∈ n.standing, ∀ l' ∈ n.standing,
    l = l'))

/-- The relation holds between the lines of one statement or except clause. -/
structure Relates (s : Script) (K : Nat → Nat → Prop) : Prop where
  same (l : Nat) : K l l
  standing {n : Node} : n ∈ (Node.script s).walk →
    ∀ {l l'}, l ∈ n.standing → l' ∈ n.standing → K l l'

theorem relates_oneNode (s : Script) : s.Relates s.OneNode :=
  ⟨fun _ => .inl rfl, fun hn _ _ hl hl' => .inr ⟨_, hn, hl, hl'⟩⟩

theorem IsLevel.relates_eq {s : Script} (h : s.IsLevel) : s.Relates Eq :=
  ⟨fun _ => rfl, fun hn _ _ hl hl' => h _ hn _ hl _ hl'⟩

end Script

theorem Expr.callLines_eq (e : Expr) :
    e.callLines = (Node.callLine? (.expr e)).toList ++ e.parts.flatMap Expr.callLines := by
  unfold callLines
  rw [Node.walk_eq, List.filterMap_cons, List.filterMap_flatMap, Node.children, List.flatMap_map]
  cases Node.callLine? (.expr e) <;> rfl

/-- What may be asked for while the run stands on a line of the node. -/
def Node.reach (n : Node) : Reach where
  expr e := e.callLines ⊆ n.standing
  call p := p.line ∈ n.standing
  parts {e d} asked part l hl := by
    apply asked
    rw [e.callLines_eq]
    exact List.mem_append_right _ (List.mem_flatMap.2 ⟨d, part, hl⟩)
  called {callee args p} asked := by
    apply asked
    rw [Expr.callLines_eq]
    exact List.mem_append_left _ List.mem_cons_self

theorem Stmt.reach_operand {s : Stmt} {e : Expr} (he : e ∈ s.operands) :
    (Node.stmt s).reach.expr e := fun _ hl =>
  List.mem_cons_of_mem _ (List.mem_flatMap.2 ⟨e, he, hl⟩)

theorem Stmt.reach_pos (s : Stmt) : (Node.stmt s).reach.call s.pos := List.mem_cons_self

theorem Handler.reach_kind {h : Handler} {e : Expr} (he : e ∈ h.kind) :
    (Node.handler h).reach.expr e := fun _ hl =>
  List.mem_cons_of_mem _ (List.mem_flatMap.2 ⟨e, Option.mem_toList.2 he, hl⟩)

namespace Script.Contains

variable {s : Script} {c : Code}

theorem stmt_mem_walk (h : s.Contains c) {t : Stmt} (owned : c.Owns t) :
    .stmt t ∈ (Node.script s).walk := by
  rw [← Node.map_snd_owned (.top s)]
  exact List.mem_map_of_mem (h.owns owned)

theorem handler_mem_walk (h : s.Contains c) {hd : Handler} (owned : c.OwnsClause hd) :
    .handler hd ∈ (Node.script s).walk := by
  rw [← Node.map_snd_owned (.top s)]
  exact List.mem_map_of_mem (h.ownsClause owned)

end Script.Contains

/-! ### Runs that go to the calls that print -/

section

variable {σ α : Type}

/-- Stands at a position for the time of a computation. -/
def Action.standingAt (p : Position) (x : Action σ α) : Action σ α := fun m =>
  backAt m.pos x { m with pos := p }

namespace Setting

open Footprint.Action

/-- A call expression calls a value: to print it goes to where it stands itself. -/
def callAttributed (c : Calls σ) (callee : Value) (args : List Value) (p : Position) :
    Action σ Value :=
  match callee with
  | .builtin .print => standingAt p (c.value (.call callee args p))
  | _ => c.value (.call callee args p)

/-- Answers a request for a value, where call expressions go to their own lines to print. -/
def evaluationAttributed (env : Setting σ) (c : Calls σ) : Evaluation → Action σ Value
  | .expr (.call callee args p) => do
    let f ← c.eval callee
    let vs ← evalAll c.value args
    callAttributed c f vs p
  | t => env.evaluation c t

/-- What answers requests that are nested at most so deep, where call expressions go to their own
lines to print. -/
def attributed (env : Setting σ) : Nat → Calls σ
  | 0 => ⟨fun _ => unfinished, fun _ => unfinished, fun _ => unfinished⟩
  | n + 1 =>
    ⟨env.evaluationAttributed (env.attributed n), Setting.placement (env.attributed n),
      env.execution (env.attributed n)⟩

def runScriptAttributed (env : Setting σ) (n : Nat) (script : Script) : Action σ Unit :=
  env.runWith (env.attributed n) script

def callGlobalAttributed (env : Setting σ) (n : Nat) (name : String) (args : List Value) :
    Action σ Value := env.callWith (env.attributed n) name args

/-- The text of the arguments, written from the position. -/
theorem standingAt_print_apply (args : List Value) (p : Position) (m : Machine σ) :
    standingAt p (print args) m =
      match args.mapM m.store.show? with
      | some texts =>
        let text := " ".intercalate texts ++ "\n"
        .done .none { m with output := m.output.write text p.line }
      | none => .unfinished { m with pos := p } := by
  unfold standingAt backAt print
  simp only [bind_apply, Action.read, Action.await, Action.observe, Action.write, pure_apply]
  cases args.mapM m.store.show? <;> rfl

end Setting

namespace Interpreter

variable {ω : Type}

/-- The run of the program, where call expressions go to their own lines to print. -/
def attributedRun (i : Interpreter ω) (steps : Nat) (monitors : Monitors ω) :
    Option (Except Failure Unit × Interpreter ω × Monitors ω) :=
  i.act monitors (·.runScriptAttributed steps i.program.script)

/-- The call of a global function, where call expressions go to their own lines to print. -/
def attributedCall (i : Interpreter ω) (steps : Nat) (monitors : Monitors ω) (name : String)
    (args : Edit (List Value)) : Option (Except Failure Value × Interpreter ω × Monitors ω) :=
  i.act monitors fun env => do
    let vs ← Action.edit args
    env.callGlobalAttributed steps name vs

end Interpreter

/-! ### Comparison -/

/-- Where the run stands when it goes on with a loop. -/
def Code.Before (c : Code) : Execution → Nat → Prop
  | .whileRounds test body orelse p, l => l ∈ (Node.stmt (.whileLoop test body orelse p)).standing
  | .forRounds target _ body orelse p, l => ∃ iter,
    c.Owns (.forLoop target iter body orelse p) ∧
      l ∈ (Node.stmt (.forLoop target iter body orelse p)).standing
  | _, _ => True

/-- The answers to all requests are alongside: those to requests for values and for things done to
targets keep to the lines of a statement or an except clause. -/
structure Calls.Alongside (s : Script) (K : Nat → Nat → Prop) (d d' : Calls σ) : Prop where
  value {n : Node} : n ∈ (Node.script s).walk → ∀ t, n.reach.Asks t →
    (d.value t).Alongside s K (· ∈ n.standing) (· ∈ n.standing) (d'.value t)
  printed {n : Node} : n ∈ (Node.script s).walk → ∀ args {p}, n.reach.call p →
    (d.value (.call (.builtin .print) args p)).Alongside s K (· ∈ n.standing) (· ∈ n.standing)
      (Action.standingAt p (d'.value (.call (.builtin .print) args p)))
  place {n : Node} : n ∈ (Node.script s).walk → ∀ t, n.reach.Places t →
    (d.place t).Alongside s K (· ∈ n.standing) (· ∈ n.standing) (d'.place t)
  run {c : Code} : s.Contains c → ∀ t, c.Allows t →
    (d.run t).Alongside s K (c.Before t) anyLine (d'.run t)

open Footprint.Action Footprint.Setting

theorem Script.Relates.steps {s : Script} {K : Nat → Nat → Prop} (relates : s.Relates K)
    (env : Setting σ) (A : Nat → Prop) : StepRelation (Action.Alongside s K A A) env env :=
  Action.Alongside.steps env relates.same A

namespace Calls.Alongside

variable {s : Script} {K : Nat → Nat → Prop} {A : Nat → Prop} {d d' : Calls σ} {c : Code}

/-- A text printed from one of the lines of a node is beside the same text printed from another. -/
theorem printed_print (relates : s.Relates K) {n : Node} (hn : n ∈ (Node.script s).walk)
    (args : List Value) {p : Position} (here : n.reach.call p) :
    (print args : Action σ Value).Alongside s K (· ∈ n.standing) (· ∈ n.standing)
      (standingAt p (print args)) := by
  intro m o wrote stands out
  rw [standingAt_print_apply]
  simp only [print, bind_apply, Action.read, Action.await, Action.observe, Action.write,
    pure_apply]
  cases args.mapM m.store.show? with
  | none => exact .unfinished out
  | some texts => exact .done _ wrote stands (out.write (relates.standing hn stands here) _)

section

variable (agree : d.Alongside s K d')

include agree

theorem block (contained : s.Contains c) {t : Stmt} (owned : c.Owns t) {b : List Stmt}
    (hb : b ∈ t.blocks) : (d.block b).Alongside s K A anyLine (d'.block b) :=
  .anywhere (agree.run contained (.block b) (owned.of_block hb))

theorem callAttributed {n : Node} (hn : n ∈ (Node.script s).walk) (callee : Value)
    (args : List Value) {p : Position} (here : n.reach.call p) :
    (d.value (.call callee args p)).Alongside s K (· ∈ n.standing) (· ∈ n.standing)
      (callAttributed d' callee args p) := by
  unfold Setting.callAttributed
  split
  · exact agree.printed hn args here
  · exact agree.value hn _ here

variable (relates : s.Relates K) (env : Setting σ)

include relates

theorem callFunction (r : FunctionRef) (args : List Value) {p : Position} (here : A p.line) :
    (env.callFunction r args p fun f => d.block f.runBody).Alongside s K A A
      (env.callFunction r args p fun f => d'.block f.runBody) := by
  have steps := relates.steps env A
  refine .lookup r fun found contained => ?_
  cases found with
  | none => exact steps.raiseAt _ p
  | some f =>
    have body := agree.run (contained f rfl) _ (Code.allows_body (.function f.function))
    exact steps.bind (steps.lift p _) fun _ =>
      steps.bind (steps.edit (Store.keeps_callScope f.scope _)) fun locals =>
        .backAt (.inFrame env (.ofFunction f.function locals) body) here

theorem callValue (callee : Value) (args : List Value) {p : Position} (here : A p.line) :
    (env.callValue d callee args p).Alongside s K A A (env.callValue d' callee args p) := by
  have steps := relates.steps env A
  unfold Setting.callValue
  split
  · exact agree.callFunction relates env _ args here
  · exact steps.callBuiltin _ args p
  · exact steps.editAt p fun s _ he => Store.keeps_callMethod he s
  · exact steps.instantiate _ args
  · exact steps.instantiate _ args
  · exact steps.raiseAt _ p
  · exact steps.raiseAt _ p

variable {n : Node} (hn : n ∈ (Node.script s).walk)

include hn

theorem evaluation {t : Evaluation} (asked : n.reach.Asks t) :
    (env.evaluation d t).Alongside s K (· ∈ n.standing) (· ∈ n.standing)
      (env.evaluationAttributed d' t) := by
  have steps := relates.steps env (· ∈ n.standing)
  have hv := agree.value hn
  cases t with
  | call callee args p => exact agree.callValue relates env callee args asked
  | expr e =>
    cases e with
    | call callee args p =>
      have parts (e : Expr) (part : e ∈ callee :: args) : n.reach.expr e := n.reach.parts asked part
      exact steps.bind (hv _ (parts _ (.head _))) fun f =>
        steps.bind (steps.evalAll hv fun e he => parts e (.tail _ he)) fun vs =>
          agree.callAttributed hn f vs (n.reach.called asked)
    | _ => exact steps.evalExpr hv asked

include env in
theorem placement {t : Placement} (placed : n.reach.Places t) :
    (placement d t).Alongside s K (· ∈ n.standing) (· ∈ n.standing) (placement d' t) :=
  (relates.steps env (· ∈ n.standing)).placement (agree.value hn) (agree.place hn) placed

omit hn

/-! ### Statements -/

variable (contained : s.Contains c)

include contained

theorem defineClass {head : ClassHead} {body : List Stmt} (owned : c.Owns (.classDef head body)) :
    (env.defineClass d head body).Alongside s K (· ∈ (Node.stmt (.classDef head body)).standing)
      anyLine (env.defineClass d' head body) := by
  have hn := contained.stmt_mem_walk owned
  have steps := relates.steps env (· ∈ (Node.stmt (.classDef head body)).standing)
  have hv := agree.value hn
  have asked (e : Expr) (he : e ∈ head.decorators ++ head.bases) :=
    Stmt.reach_operand (s := .classDef head body) he
  have inner := agree.run (contained.inner (.classBody owned)) _ (Code.allows_body _)
  have here := Stmt.reach_pos (.classDef head body)
  -- the body ends anywhere, and the run goes back to the header
  have ran (scope : ScopeRef) := Action.Alongside.inFrame (A := (· ∈
    (Node.stmt (.classDef head body)).standing)) env (.ofClass head scope) inner
  exact (steps.evalAll hv fun e he => asked e (List.mem_append_left _ he)).bind fun _ =>
    (steps.evalAll hv fun e he => asked e (List.mem_append_right _ he)).bind fun _ =>
      steps.frameKind.bind fun _ => (steps.read _).bind fun _ =>
        (steps.edit (Store.keeps_newScope _)).bind fun scope =>
          ((ran scope).bind fun _ => .pure ()).bind fun _ => (Action.Alongside.setPos here).bind
            fun _ => (steps.decorate hv _ _ here).bind fun v => (steps.store head.name v).somewhere

theorem handle (f : Failure) {handlers : List Handler}
    (owned : ∀ hd ∈ handlers, c.OwnsClause hd) :
    (env.handle d.value d.run f handlers).Alongside s K anyLine anyLine
      (env.handle d'.value d'.run f handlers) := by
  induction handlers with
  | nil => exact .fail f
  | cons hd hs ih =>
    have hhd : c.OwnsClause hd := owned hd List.mem_cons_self
    have hn := contained.handler_mem_walk hhd
    have steps := relates.steps env (· ∈ (Node.handler hd).standing)
    have here : hd.pos.line ∈ (Node.handler hd).standing := List.mem_cons_self
    refine (Action.Alongside.setPos here).bind fun _ => (Action.Alongside.markLine env _).bind
      fun _ => (steps.isCaught (agree.value hn) f fun _ => Handler.reach_kind).bind fun caught => ?_
    split
    · exact .anywhere (agree.run contained (.clause f hd) hhd)
    · exact .anywhere (ih fun k hk => owned k (List.mem_cons_of_mem _ hk))

theorem tryBlock {body : List Stmt} {handlers : List Handler} {orelse final : List Stmt}
    {p : Position} (owned : c.Owns (.tryBlock body handlers orelse final p)) :
    (env.tryBlock d body handlers orelse final).Alongside s K A anyLine
      (env.tryBlock d' body handlers orelse final) := by
  have block {B : Nat → Prop} {b : List Stmt}
      (hb : b ∈ (Stmt.tryBlock body handlers orelse final p).blocks) :
      (d.block b).Alongside s K B anyLine (d'.block b) := agree.block contained owned hb
  have caught (f : Failure) : Action.Alongside s K anyLine anyLine
      (if f.isCatchable && !handlers.isEmpty then env.handle d.value d.run f handlers
        else Action.fail f)
      (if f.isCatchable && !handlers.isEmpty then env.handle d'.value d'.run f handlers
        else Action.fail f) := by
    split
    · exact agree.handle relates env contained f fun hd hmem => ⟨_, _, _, _, _, owned, hmem⟩
    · exact .fail f
  have covered := Action.Alongside.proceed (A := A) (block (b := body) (by simp [Stmt.blocks]))
    (block (b := orelse) (by simp [Stmt.blocks])) caught
  unfold Setting.tryBlock
  split
  · exact covered
  · exact covered.lastly (block (by simp [Stmt.blocks]))

theorem perform {t : Stmt} (owned : c.Owns t) :
    (env.perform d t).Alongside s K (· ∈ (Node.stmt t).standing) anyLine (env.perform d' t) := by
  have hn := contained.stmt_mem_walk owned
  have steps := relates.steps env (· ∈ (Node.stmt t).standing)
  have hv := agree.value hn
  have operand {e : Expr} (he : e ∈ t.operands) := hv (.expr e) (Stmt.reach_operand he)
  by_cases plain : t.isPlain = true
  · have defined {head : FunctionHead} {body : List Stmt} (same : t = .function head body) :=
      contained.inner (.function (same ▸ owned))
    exact .somewhere (steps.plain hv (agree.place hn) plain (fun _ => Stmt.reach_operand)
      t.reach_pos fun _ _ same _ _ => .newFunction (defined same))
  · cases t with
    | classDef head body => exact agree.defineClass relates env contained owned
    | ret value p =>
      cases value with
      | none => exact .somewhere (.giveBack _)
      | some e => exact .somewhere ((operand (.head _)).bind fun v => .giveBack v)
    | forLoop target iter body orelse p =>
      have go (items : Items) :=
        agree.run contained (.forRounds target items body orelse p) ⟨iter, owned⟩
      exact (operand (.tail _ (.head _))).bind fun v => (steps.readAt p _).bind fun items =>
        (go items).mono (fun _ stands => ⟨iter, owned, stands⟩) fun _ => id
    | whileLoop test body orelse p =>
      exact agree.run contained (.whileRounds test body orelse p) owned
    | cond test body orelse p =>
      refine (operand (.head _)).bind fun v => (steps.read _).bind fun truth => ?_
      split
      · exact agree.block contained owned (by simp [Stmt.blocks])
      · exact agree.block contained owned (by simp [Stmt.blocks])
    | tryBlock body handlers orelse final p => exact agree.tryBlock relates env contained owned
    | brk p => exact .somewhere (.setJump .brk)
    | cont p => exact .somewhere (.setJump .cont)
    | _ => exact absurd rfl plain

theorem runStmt {t : Stmt} (owned : c.Owns t) :
    (env.runStmt d t).Alongside s K anyLine anyLine (env.runStmt d' t) :=
  .reporting env <| (Action.Alongside.setPos t.reach_pos).bind fun _ =>
    (Action.Alongside.markLines env _).bind fun _ => agree.perform relates env contained owned

omit relates in
theorem runBlock {body : List Stmt} (owned : ∀ t ∈ body, c.Owns t) :
    (runBlock d.run body).Alongside s K anyLine anyLine (runBlock d'.run body) := by
  induction body with
  | nil => exact .pure ()
  | cons t rest ih =>
    refine .proceed (agree.run contained (.stmt t) (owned t List.mem_cons_self)) ?_ .fail
    exact ih fun u hu => owned u (List.mem_cons_of_mem _ hu)

theorem whileRounds {test : Expr} {body orelse : List Stmt} {p : Position}
    (owned : c.Owns (.whileLoop test body orelse p)) :
    (env.whileRounds d test body orelse p).Alongside s K
      (· ∈ (Node.stmt (.whileLoop test body orelse p)).standing) anyLine
      (env.whileRounds d' test body orelse p) := by
  have hn := contained.stmt_mem_walk owned
  have steps := relates.steps env (· ∈ (Node.stmt (.whileLoop test body orelse p)).standing)
  have tested := agree.value hn (.expr test) (Stmt.reach_operand (.head _))
  refine tested.bind fun v => (steps.read _).bind fun truth => ?_
  split
  · have here := Stmt.reach_pos (.whileLoop test body orelse p)
    exact .round (agree.block contained owned (by simp [Stmt.blocks])) <|
      (Action.Alongside.setPos here).bind fun _ => (Action.Alongside.markLine env _).bind fun _ =>
        agree.run contained (.whileRounds test body orelse p) owned
  · exact agree.block contained owned (by simp [Stmt.blocks])

omit relates in
theorem forRounds {target iter : Expr} (items : Items) {body orelse : List Stmt} {p : Position}
    (owned : c.Owns (.forLoop target iter body orelse p)) :
    (env.forRounds d target items body orelse p).Alongside s K
      (· ∈ (Node.stmt (.forLoop target iter body orelse p)).standing) anyLine
      (env.forRounds d' target items body orelse p) := by
  have hn := contained.stmt_mem_walk owned
  unfold Setting.forRounds
  split
  · exact agree.block contained owned (by simp [Stmt.blocks])
  · next v rest _ =>
    have here := Stmt.reach_pos (.forLoop target iter body orelse p)
    have again := agree.run contained (.forRounds target rest body orelse p) ⟨iter, owned⟩
    have assigned := agree.place hn (.assign target v) (Stmt.reach_operand (.head _))
    exact assigned.bind fun _ => .round (agree.block contained owned (by simp [Stmt.blocks]))
      ((Action.Alongside.setPos here).bind fun _ => (Action.Alongside.markLine env _).bind
        fun _ => again.mono (fun _ stands => ⟨iter, owned, stands⟩) fun _ => id)

theorem execution {t : Execution} (allowed : c.Allows t) :
    (env.execution d t).Alongside s K (c.Before t) anyLine (env.execution d' t) := by
  cases t with
  | block body => exact agree.runBlock contained allowed
  | stmt t => exact agree.runStmt relates env contained allowed
  | whileRounds test body orelse p => exact agree.whileRounds relates env contained allowed
  | forRounds target items body orelse p =>
    rintro m o wrote ⟨iter, owned, stands⟩ out
    exact agree.forRounds env contained items owned wrote stands out
  | clause f hd =>
    exact .clause env relates.same f hd.name
      (agree.run contained (.block hd.body) (Code.Owns.of_clause allowed))

end

variable (relates : s.Relates K) (env : Setting σ)

include relates

/-- One more step of both runs. -/
theorem next (agree : d.Alongside s K d') :
    Calls.Alongside s K ⟨env.evaluation d, Setting.placement d, env.execution d⟩
      ⟨env.evaluationAttributed d', Setting.placement d', env.execution d'⟩ where
  value hn _ asked := agree.evaluation relates env hn asked
  printed hn args _ here := printed_print relates hn args here
  place hn _ placed := agree.placement relates env hn placed
  run contained _ allowed := agree.execution relates env contained allowed

/-- However deep requests are nested, the runs are alongside. -/
theorem attributed (n : Nat) : (env.calls n).Alongside s K (env.attributed n) := by
  induction n with
  | zero =>
    have unfinished {α : Type} {A B : Nat → Prop} :
        (unfinished : Action σ α).Alongside s K A B unfinished := fun _ _ _ _ out => .unfinished out
    exact ⟨fun _ _ _ => unfinished, fun _ _ _ _ _ _ _ _ out => .unfinished out,
      fun _ _ _ => unfinished, fun _ _ _ => unfinished⟩
  | succ n ih => exact ih.next relates env

/-- A host calls whatever it calls from anywhere. -/
theorem attributed_call (n : Nat) (callee : Value) (args : List Value) (p : Position) :
    ((env.calls n).value (.call callee args p)).Alongside s K anyLine anyLine
      ((env.attributed n).value (.call callee args p)) := by
  cases n with
  | zero => exact fun _ _ _ _ out => .unfinished out
  | succ n => exact (attributed relates env n).callValue relates env callee args trivial

theorem runScript (n : Nat) :
    (env.runScript n s).Alongside s K anyLine anyLine (env.runScriptAttributed n s) := by
  have body := (attributed relates env n).run .top _ (Code.allows_body (.top s))
  exact (Action.Alongside.startTimer env).bind fun _ => (Action.Alongside.setJump .none).bind
    fun _ => (Action.Alongside.inFrame env .top body).bind fun _ => .pure ()

theorem callGlobal (n : Nat) (name : String) (args : List Value) :
    (env.callGlobal n name args).Alongside s K anyLine anyLine
      (env.callGlobalAttributed n name args) := by
  refine (Action.Alongside.observe _).bind fun callee => ?_
  cases callee with
  | none => exact .fail _
  | some v =>
    exact (Action.Alongside.startTimer env).bind fun _ => .inHostFrame <|
      Action.Alongside.getPos.bind fun p => attributed_call relates env n v args p

end Calls.Alongside

end

/-! ### Runs of programs -/

namespace Interpreter

variable {ω α : Type} {i : Interpreter ω} {μ : Monitors ω} {p : Program} {limits : Limits}

theorem act_eq_of_beside {x y : Setting (Monitors ω) → Action (Monitors ω) α}
    (h : (x i.setting (i.machine.withMonitor μ)).Beside Eq
      (y i.setting (i.machine.withMonitor μ))) : i.act μ x = i.act μ y := by
  unfold act
  generalize x i.setting (i.machine.withMonitor μ) = r at h
  generalize y i.setting (i.machine.withMonitor μ) = r' at h
  cases h with
  | done a out => rw [← out.eq]
  | failed f out => rw [← out.eq]
  | unfinished => rfl

/-- Each line of the output names the line of the call that printed it, or another line of the
statement or except clause that the call is in: whatever a host has done before, a run of the
program ends like one that goes to the line of a call expression to print, with the same texts, and
each from the same line or from another line of one statement or except clause. If no call in a
statement is on another line than the statement itself, all lines of the output are those of the
calls. -/
theorem printed_lines (hosted : Hosted p limits i μ) (n : Nat) :
    let m := i.machine.withMonitor μ
    (i.setting.runScript n p.script m).Beside p.script.OneNode
      (i.setting.runScriptAttributed n p.script m) ∧
    (∀ name, ∀ args : Edit (List Value), args.KeepsFunctions →
      ((do let vs ← Action.edit args; i.setting.callGlobal n name vs) m).Beside p.script.OneNode
        ((do let vs ← Action.edit args; i.setting.callGlobalAttributed n name vs) m)) ∧
    (p.script.IsLevel → i.run n μ = i.attributedRun n μ ∧
      ∀ name, ∀ args : Edit (List Value), args.KeepsFunctions →
        i.call n μ name args = i.attributedCall n μ name args) := by
  intro m
  obtain ⟨rfl, wrote, -, -⟩ := hosted.kept
  have run {K : Nat → Nat → Prop} (relates : i.program.script.Relates K) :=
    (Calls.Alongside.runScript relates i.setting n (m := m) wrote trivial
      (Output.Beside.refl relates.same _)).beside
  have call {K : Nat → Nat → Prop} (relates : i.program.script.Relates K) (name : String)
      {args : Edit (List Value)} (keeps : args.KeepsFunctions) :=
    ((relates.steps i.setting anyLine).bind ((relates.steps i.setting anyLine).edit keeps)
      (fun vs => Calls.Alongside.callGlobal relates i.setting n name vs) (m := m) wrote trivial
      (Output.Beside.refl relates.same _)).beside
  refine ⟨run (Script.relates_oneNode _), fun name args => call (Script.relates_oneNode _) name,
    fun level => ⟨act_eq_of_beside (run level.relates_eq), fun name args keeps => ?_⟩⟩
  exact act_eq_of_beside (call level.relates_eq name keeps)

/-- A program whose calls are on the lines of their statements. -/
def printingLevel : Program :=
  ⟨"def f(x):\n    print(x)\n    return x\n\nprint(f(1))\n", ⟨[
    .function ⟨"f", false, [⟨"x", none, none, ⟨1, 7⟩⟩], [], none, 1, ⟨["x"], [], []⟩, ⟨1, 1⟩, 3⟩
      [.expr (.call (.name "print" ⟨2, 5⟩) [.name "x" ⟨2, 11⟩] ⟨2, 5⟩) ⟨2, 5⟩,
        .ret (some (.name "x" ⟨3, 12⟩)) ⟨3, 5⟩],
    .expr (.call (.name "print" ⟨5, 1⟩)
      [.call (.name "f" ⟨5, 7⟩) [.const (.int 1) ⟨5, 9⟩] ⟨5, 7⟩] ⟨5, 1⟩) ⟨5, 1⟩]⟩⟩

/-- A function prints its argument and its caller the value. -/
theorem printed_lines_level :
    let i : Interpreter Unit := new printingLevel .default .steady
    let μ : Monitors Unit := ⟨#[], ()⟩
    Program.ofSource printingLevel.source = .ok printingLevel ∧
    Hosted printingLevel .default i μ ∧ printingLevel.script.IsLevel ∧
    (∃ j, i.attributedRun 12 μ = some (.ok (), j, μ) ∧
      j.machine.output = ⟨#[⟨"1", 2⟩, ⟨"1", 5⟩], none⟩) ∧
    let args := Datum.makeAll [.int 7]
    i.call 12 μ "f" args = i.attributedCall 12 μ "f" args := by
  intro i μ
  have hosted : Hosted printingLevel .default i μ := .new .steady ()
  have level : printingLevel.script.IsLevel := by decide +kernel
  obtain ⟨ran, called⟩ := (printed_lines hosted 12).2.2 level
  have called := called "f" _ (Datum.keeps_makeAll [.int 7])
  refine ⟨by cbv, hosted, level, ⟨_, ran.symm.trans (by cbv), ?_⟩, called⟩
  rfl

/-- A program with a list of two lines that prints on the second one. -/
def printingInList : Program :=
  ⟨"x = [1,\n     print('a')]\n", ⟨[
    .assign [.name "x" ⟨1, 1⟩] (.list [.const (.int 1) ⟨1, 6⟩,
      .call (.name "print" ⟨2, 6⟩) [.const (.str "a") ⟨2, 12⟩] ⟨2, 6⟩] ⟨1, 5⟩) ⟨1, 1⟩]⟩⟩

/-- The list begins on the first line, from which its second item is printed; the call is on the
second line. -/
theorem printed_line_elsewhere :
    Program.ofSource printingInList.source = .ok printingInList ∧
    ¬printingInList.script.IsLevel ∧
    let i : Interpreter Unit := new printingInList .default .steady
    (∃ j ν, i.run 8 ⟨#[], ()⟩ = some (.ok (), j, ν) ∧
      j.machine.output = ⟨#[⟨"a", 1⟩], none⟩) ∧
    ∃ j ν, i.attributedRun 8 ⟨#[], ()⟩ = some (.ok (), j, ν) ∧
      j.machine.output = ⟨#[⟨"a", 2⟩], none⟩ := by
  refine ⟨by cbv, by decide +kernel, ⟨_, _, by cbv, ?_⟩, ⟨_, _, by cbv, ?_⟩⟩
  · rfl
  · rfl

end Interpreter

end Footprint
