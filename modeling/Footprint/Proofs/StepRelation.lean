import Footprint.Proofs.Code
import Footprint.Proofs.StoreFunctions
import Footprint.Syntax.Node

set_option autoImplicit false

/-!
Relations between computations that the steps of running keep. Whatever is asked for then has
related answers, as far as the rules of running lead to no frame and to no block: the built-in
functions, the rules of expressions and targets, and the statements that have no part in the flow of
control.
-/

namespace Footprint

/-- The statement neither contains others that are run in its place nor begins a jump. -/
def Stmt.isPlain : Stmt → Bool
  | .classDef .. | .ret .. | .forLoop .. | .whileLoop .. | .cond .. | .tryBlock .. | .brk _
  | .cont _ => false
  | _ => true

/-- The expressions that a statement itself evaluates or does something to. -/
def Stmt.operands : Stmt → List Expr
  | .function head _ => head.decorators ++ head.params.filterMap (·.default)
  | .classDef head _ => head.decorators ++ head.bases
  | .ret value _ => value.toList
  | .delete targets _ => targets
  | .assign targets value _ => value :: targets
  | .augment target _ value _ | .annotate target _ (some value) _ => [target, value]
  | .forLoop target iter _ _ _ => [target, iter]
  | .whileLoop test _ _ _ | .cond test _ _ _ => [test]
  | .withBlock items _ _ => items.map (·.context)
  | .raise exc _ => exc.toList
  | .assert test message _ => test :: message.toList
  | .expr value _ => [value]
  | _ => []

/-- What may be asked for: expressions with their parts, and calls from positions. -/
structure Reach where
  expr : Expr → Prop
  call : Position → Prop
  parts {e d : Expr} : expr e → d ∈ e.parts → expr d
  called {callee : Expr} {args : List Expr} {p : Position} : expr (.call callee args p) → call p

namespace Reach

/-- Anything may be asked for. -/
def all : Reach := ⟨fun _ => True, fun _ => True, fun _ _ => trivial, fun _ => trivial⟩

def Asks (S : Reach) : Evaluation → Prop
  | .expr e => S.expr e
  | .call _ _ p => S.call p

def Places (S : Reach) : Placement → Prop
  | .assign target _ | .delete target => S.expr target

end Reach

open Footprint.Action Footprint.Setting

variable {σ τ α β : Type}

/-- A relation between computations that is kept by the steps of which most rules of running are
made. -/
structure StepRelation (related : ∀ {α : Type}, Action σ α → Action τ α → Prop) (env : Setting σ)
    (env' : Setting τ) : Prop where
  pure {α : Type} (a : α) : related (pure a : Action σ α) (pure a)
  bind {α β : Type} {x : Action σ α} {y : Action τ α} {f : α → Action σ β} {g : α → Action τ β} :
    related x y → (∀ a, related (f a) (g a)) → related (x >>= f) (y >>= g)
  observe {α : Type} (f : Store → Option (Except Failure α)) : related (observe f) (observe f)
  /-- Changes of the store leave the functions in it as they are. -/
  editAt {α : Type} (p : Position) {plan : Store → Except Fault (Edit α)}
    (keeps : ∀ s e, plan s = .ok e → (e s).2.functions = s.functions) :
    related (editAt p plan) (editAt p plan)
  frameKind : related frameKind frameKind
  getPos : related getPos getPos
  write (text : String) : related (write text) (write text)
  reraise (p : Position) : related (reraise p) (reraise p)
  checkDeadline : related env.checkDeadline env'.checkDeadline

namespace StepRelation

variable {related : ∀ {α : Type}, Action σ α → Action τ α → Prop} {env : Setting σ}
  {env' : Setting τ} (h : StepRelation related env env')

include h

/-! ### Steps -/

theorem unfinished : related (unfinished : Action σ α) unfinished := h.observe _

theorem fail (f : Failure) : related (fail f : Action σ α) (fail f) := h.observe _

theorem raiseAt (f : Fault) (p : Position) : related (raiseAt f p : Action σ α) (raiseAt f p) :=
  h.fail _

theorem attemptAt (p : Position) (f : Store → Attempt α) :
    related (attemptAt p f) (attemptAt p f) := h.observe _

theorem readAt (p : Position) (f : Store → Except Fault α) :
    related (readAt p f) (readAt p f) := h.observe _

theorem lift (p : Position) (x : Except Fault α) : related (lift p x) (lift p x) := h.readAt p _

theorem read (f : Store → α) : related (read f) (read f) := h.observe _

theorem await (x : Option α) : related (await x) (await x) := h.observe _

theorem edit {e : Edit α} (keeps : e.KeepsFunctions) : related (edit e) (edit e) := by
  change related (Action.editAt .start fun _ => .ok e) (Action.editAt .start fun _ => .ok e)
  apply h.editAt .start
  intro s d hd
  cases hd
  exact keeps s

theorem store (name : String) (v : Value) : related (store name v) (store name v) :=
  h.bind (h.frameKind) fun _ => h.bind (h.getPos) fun _ =>
    h.editAt _ fun s _ he => Store.keeps_assign he s

theorem unbind (name : String) : related (unbind name) (unbind name) :=
  h.bind (h.frameKind) fun _ => h.bind (h.getPos) fun _ =>
    h.editAt _ fun s _ he => Store.keeps_unassign he s

theorem discard {x : Action σ α} {y : Action τ α} (hx : related x y) :
    related (discard x) (discard y) := h.bind hx fun _ => h.pure ()

/-! ### Built-in functions -/

theorem fold {step : α → Value → Action σ α} {step' : α → Value → Action τ α}
    (hstep : ∀ a v, related (step a v) (step' a v)) (a : α) (items : Items) :
    related (items.fold step a) (items.fold step' a) := by
  unfold Items.fold
  generalize items.length = n
  induction n generalizing a items with
  | zero => exact h.pure a
  | succ n ih =>
    unfold Items.foldUpTo
    cases items.next? with
    | none => exact h.pure a
    | some p =>
      apply h.bind (hstep a p.1)
      intro a'
      exact ih a' p.2

theorem goThrough {step : α → Value → Action σ α} {step' : α → Value → Action τ α}
    (hstep : ∀ a v, related (step a v) (step' a v)) (a : α) (items : Items) :
    related (env.goThrough step a items) (env'.goThrough step' a items) := by
  refine h.bind (h.fold (fun acc v => ?_) (a, 0) items) fun acc => h.pure _
  split
  · exact h.bind (h.checkDeadline) fun _ => h.bind (hstep acc.1 v) fun _ => h.pure _
  · exact h.bind (hstep acc.1 v) fun _ => h.pure _

theorem collect (p : Position) (v : Value) : related (env.collect p v) (env'.collect p v) :=
  h.bind (h.lift p _) fun _ => h.bind (h.readAt p _) fun items =>
    h.goThrough (fun _ _ => h.pure _) #[] items

theorem print (args : List Value) :
    related (print args : Action σ Value) (print args) :=
  h.bind (h.read _) fun _ => h.bind (h.await _) fun _ => h.bind (h.write _) fun _ =>
    h.pure _

theorem candidates (name : String) (args : List Value) (p : Position) :
    related (candidates name args p : Action σ Items) (candidates name args p) := by
  unfold Setting.candidates
  split
  · exact h.raiseAt _ p
  · exact h.readAt p _
  · exact h.pure _

theorem extreme (name : String) (op : CompareOp) (args : List Value) (p : Position) :
    related (env.extreme name op args p) (env'.extreme name op args p) := by
  apply h.bind (h.candidates name args p)
  intro items
  split
  · exact h.raiseAt _ p
  · apply h.goThrough
    intro best v
    exact h.bind (h.attemptAt p _) fun _ => h.pure _

theorem sum (args : List Value) (p : Position) :
    related (env.sum args p) (env'.sum args p) := by
  apply h.bind (h.lift p _)
  intro operands
  apply h.bind (h.readAt p _)
  intro items
  apply h.goThrough
  intro total v
  exact h.editAt p fun s _ he => Store.keeps_binary he s

theorem callBuiltin (b : Builtin) (args : List Value) (p : Position) :
    related (env.callBuiltin b args p) (env'.callBuiltin b args p) := by
  cases b <;> simp only [Setting.callBuiltin]
  case print => exact h.print args
  case range | abs => exact h.lift p _
  case len =>
    exact h.bind (h.lift p _) fun _ => h.bind (h.readAt p _) fun _ => h.pure _
  case min | max => exact h.extreme _ _ args p
  case sum => exact h.sum args p
  all_goals
    apply h.bind (h.lift p _)
    intro given
    cases given with
    | none => first | exact h.pure _ | exact h.edit (Store.keeps_newList _)
    | some v => ?_
  case int | float => exact h.lift p _
  case str =>
    exact h.bind (h.read _) fun _ => h.bind (h.await _) fun _ => h.pure _
  case bool => exact h.bind (h.read _) fun _ => h.pure _
  case list => exact h.bind (h.collect p v) fun _ => h.edit (Store.keeps_newList _)

theorem augmented (op : BinaryOp) (current operand : Value) (p : Position) :
    related (env.augmented op current operand p) (env'.augmented op current operand p) := by
  unfold Setting.augmented
  split
  · exact h.bind (h.collect p operand) fun _ =>
      h.bind (h.editAt p fun s _ he => Store.keeps_extend he s) fun _ => h.pure _
  · exact h.editAt p fun s _ he => Store.keeps_binary he s

theorem instantiate (kind : String) (args : List Value) :
    related (instantiate kind args : Action σ Value) (instantiate kind args) :=
  h.bind (h.read _) fun _ => h.bind (h.await _) fun _ =>
    h.edit (Store.keeps_newException _ _)

theorem bindCaught (f : Failure) (name : Option String) :
    related (bindCaught f name) (bindCaught f name) := by
  unfold Action.bindCaught
  split
  · exact h.bind (h.edit (Store.keeps_newException _ _)) fun v => h.store _ v
  · exact h.pure ()


/-! ### Expressions -/

section Expressions

variable {d : Calls σ} {d' : Calls τ} {S : Reach}
  (hv : ∀ t, S.Asks t → related (d.value t) (d'.value t))

include hv

theorem evalAll {es : List Expr} (asked : ∀ e ∈ es, S.expr e) :
    related (evalAll d.value es) (evalAll d'.value es) := by
  induction es with
  | nil => exact h.pure _
  | cons e es ih =>
    have others := ih fun e he => asked e (.tail _ he)
    exact h.bind (hv _ (asked e (.head _))) fun _ => h.bind others fun _ => h.pure _

theorem evalLogic (op : BoolOp) {es : List Expr} (asked : ∀ e ∈ es, S.expr e) :
    related (evalLogic d.value op es) (evalLogic d'.value op es) := by
  induction es with
  | nil => exact h.pure _
  | cons e es ih =>
    cases es with
    | nil => exact hv _ (asked e (.head _))
    | cons e' es =>
      refine h.bind (hv _ (asked e (.head _))) fun v => h.bind (h.read _) fun truth => ?_
      split
      · exact h.pure v
      · exact ih fun e he => asked e (.tail _ he)

theorem evalLinks (p : Position) (a : Value) {links : List (CompareOp × Expr)}
    (asked : ∀ e ∈ links.map Prod.snd, S.expr e) :
    related (evalLinks d.value p a links) (evalLinks d'.value p a links) := by
  induction links generalizing a with
  | nil => exact h.pure _
  | cons link links ih =>
    refine h.bind (hv _ (asked _ (.head _))) fun b => h.bind (h.attemptAt p _) fun holds => ?_
    split
    · exact ih b fun e he => asked e (.tail _ he)
    · exact h.pure _

theorem evalExpr {e : Expr} (asked : S.expr e) : related (evalExpr d e) (evalExpr d' e) := by
  have parts (d : Expr) (part : d ∈ e.parts) : S.expr d := S.parts asked part
  cases e with
  | const k p => exact h.pure _
  | name id p => exact h.bind h.frameKind fun _ => h.readAt p _
  | list items p => exact h.bind (h.evalAll hv parts) fun _ => h.edit (Store.keeps_newList _)
  | tuple items p => exact h.bind (h.evalAll hv parts) fun _ => h.edit (Store.keeps_newTuple _)
  | binary op left right p =>
    exact h.bind (hv _ (parts _ (.head _))) fun _ => h.bind (hv _ (parts _ (.tail _ (.head _))))
      fun _ => h.editAt p fun s _ he => Store.keeps_binary he s
  | unary op operand p => exact h.bind (hv _ (parts _ (.head _))) fun _ => h.readAt p _
  | logic op operands p => exact h.evalLogic hv op parts
  | compare left links p =>
    exact h.bind (hv _ (parts _ (.head _))) fun a =>
      h.evalLinks hv p a fun e he => parts e (.tail _ he)
  | call callee args p =>
    exact h.bind (hv _ (parts _ (.head _))) fun _ =>
      h.bind (h.evalAll hv fun e he => parts e (.tail _ he)) fun _ => hv _ (S.called asked)
  | member object attr p => exact h.bind (hv _ (parts _ (.head _))) fun _ => h.readAt p _
  | subscript object index p =>
    exact h.bind (hv _ (parts _ (.head _))) fun _ => h.bind (hv _ (parts _ (.tail _ (.head _))))
      fun _ => h.readAt p _
  | choice test body orelse p =>
    refine h.bind (hv _ (parts _ (.head _))) fun _ => h.bind (h.read _) fun truth => ?_
    split
    · exact hv _ (parts _ (.tail _ (.head _)))
    · exact hv _ (parts _ (.tail _ (.tail _ (.head _))))

theorem raised (v : Value) {p : Position} (here : S.call p) :
    related (raised d v p) (raised d' v p) := by
  unfold Setting.raised
  split
  · exact hv _ here
  · exact hv _ here
  · exact h.pure _

theorem raise {exc : Option Expr} {p : Position} (asked : ∀ e ∈ exc, S.expr e)
    (here : S.call p) : related (raise d exc p) (raise d' exc p) := by
  cases exc with
  | none => exact h.reraise p
  | some e =>
    refine h.bind (hv _ (asked e rfl)) fun v => h.bind (h.raised hv v here) fun made => ?_
    split
    · exact h.fail _
    · exact h.raiseAt _ p

theorem assert {test : Expr} {message : Option Expr} (p : Position) (asked : S.expr test)
    (told : ∀ e ∈ message, S.expr e) :
    related (assert d test message p) (assert d' test message p) := by
  refine h.bind (hv _ asked) fun _ => h.bind (h.read _) fun truth => ?_
  split
  · exact h.pure _
  · cases message with
    | none => exact h.raiseAt _ p
    | some e =>
      exact h.bind (hv _ (told e rfl)) fun _ => h.bind (h.read _) fun _ => h.bind (h.await _)
        fun _ => h.raiseAt _ p

theorem context {items : List WithItem} (asked : ∀ i ∈ items, S.expr i.context) :
    related (context d items) (context d' items) := by
  cases items with
  | nil => exact h.pure _
  | cons i items => exact hv _ (asked i (.head _))

theorem isCaught (f : Failure) {hd : Handler} (asked : ∀ e ∈ hd.kind, S.expr e) :
    related (isCaught d.value f hd) (isCaught d'.value f hd) := by
  unfold Setting.isCaught
  split
  · exact h.pure _
  · next e kind => exact h.bind (hv _ (asked e kind)) fun _ => h.lift _ _

theorem decorate {p : Position} (ds : List Value) (v : Value) (here : S.call p) :
    related (decorate d.value p ds v) (decorate d'.value p ds v) := by
  induction ds generalizing v with
  | nil => exact h.pure v
  | cons f ds ih => exact h.bind (hv _ here) fun w => ih w

theorem augmentedName (id : String) (p : Position) (op : BinaryOp) {value : Expr}
    (asked : S.expr value) :
    related (env.augmentedName d id p op value) (env'.augmentedName d' id p op value) :=
  h.bind h.frameKind fun _ => h.bind (h.readAt _ _) fun _ =>
    h.bind (hv _ asked) fun _ => h.augmented op _ _ _

theorem augment {target : Expr} (op : BinaryOp) {value : Expr} (q : Position)
    (done : S.expr target) (asked : S.expr value) :
    related (env.augment d target op value q) (env'.augment d' target op value q) := by
  have parts (d : Expr) (part : d ∈ target.parts) : S.expr d := S.parts done part
  unfold Setting.augment
  split
  · next id p =>
    have named := h.bind (h.augmentedName hv id p op asked) fun v => h.store id v
    rw [← augment_name_eq _ _ id p q, ← augment_name_eq _ _ id p q] at named
    exact named
  · exact h.bind (hv _ (parts _ (.head _))) fun _ => h.bind (hv _ (parts _ (.tail _ (.head _))))
      fun _ => h.bind (h.readAt _ _) fun _ => h.bind (hv _ asked) fun _ =>
        h.bind (h.augmented op _ _ _) fun _ => h.editAt _ fun s _ he => Store.keeps_setItem he s
  · exact h.bind (hv _ (parts _ (.head _))) fun _ => h.bind (h.readAt _ _) fun _ =>
      h.bind (hv _ asked) fun _ => h.bind (h.augmented op _ _ _) fun _ =>
        h.editAt _ fun s _ he => Store.keeps_setAttribute he s
  · exact h.raiseAt _ q

theorem makeFunction {head : FunctionHead} {body : List Stmt}
    (asked : ∀ e ∈ (Stmt.function head body).operands, S.expr e) (here : S.call head.pos)
    (newFunction : ∀ defaults scope,
      related (Action.edit (Store.newFunction ⟨⟨head, body⟩, defaults, scope⟩))
        (Action.edit (Store.newFunction ⟨⟨head, body⟩, defaults, scope⟩))) :
    related (makeFunction d head body) (makeFunction d' head body) :=
  h.bind (h.evalAll hv fun e he => asked e (List.mem_append_left _ he)) fun _ =>
    h.bind (h.evalAll hv fun e he => asked e (List.mem_append_right _ he)) fun _ =>
      h.bind h.frameKind fun _ => h.bind (h.read _) fun _ =>
        h.bind (newFunction _ _) fun _ => h.decorate hv _ _ here

theorem defineFunction {head : FunctionHead} {body : List Stmt}
    (asked : ∀ e ∈ (Stmt.function head body).operands, S.expr e) (here : S.call head.pos)
    (newFunction : ∀ defaults scope,
      related (Action.edit (Store.newFunction ⟨⟨head, body⟩, defaults, scope⟩))
        (Action.edit (Store.newFunction ⟨⟨head, body⟩, defaults, scope⟩))) :
    related (defineFunction d head body) (defineFunction d' head body) := by
  rw [defineFunction_eq, defineFunction_eq]
  exact h.bind (h.makeFunction hv asked here newFunction) fun _ => h.store _ _

/-! ### Targets -/

variable (hp : ∀ t, S.Places t → related (d.place t) (d'.place t))

section

omit hv
include hp

theorem assignAll {targets : List Expr} (vs : List Value) (placed : ∀ t ∈ targets, S.expr t) :
    related (assignAll d.place targets vs) (assignAll d'.place targets vs) := by
  induction targets generalizing vs with
  | nil => exact h.pure _
  | cons t ts ih =>
    cases vs with
    | nil => exact h.pure _
    | cons v vs =>
      exact h.bind (hp _ (placed t (.head _))) fun _ => ih vs fun t ht => placed t (.tail _ ht)

theorem assignEach (v : Value) {targets : List Expr} (placed : ∀ t ∈ targets, S.expr t) :
    related (assignEach d.place v targets) (assignEach d'.place v targets) := by
  induction targets with
  | nil => exact h.pure _
  | cons t ts ih =>
    exact h.bind (hp _ (placed t (.head _))) fun _ => ih fun t ht => placed t (.tail _ ht)

theorem deleteAll {targets : List Expr} (placed : ∀ t ∈ targets, S.expr t) :
    related (deleteAll d.place targets) (deleteAll d'.place targets) := by
  induction targets with
  | nil => exact h.pure _
  | cons t ts ih =>
    exact h.bind (hp _ (placed t (.head _))) fun _ => ih fun t ht => placed t (.tail _ ht)

end

include hp

theorem assign {target : Expr} (v : Value) (placed : S.expr target) :
    related (assign d target v) (assign d' target v) := by
  have parts (d : Expr) (part : d ∈ target.parts) : S.expr d := S.parts placed part
  unfold Setting.assign
  split
  · exact h.store _ v
  · exact h.bind (h.readAt _ _) fun _ => h.bind (h.lift _ _) fun _ => h.assignAll hp _ parts
  · exact h.bind (h.readAt _ _) fun _ => h.bind (h.lift _ _) fun _ => h.assignAll hp _ parts
  · exact h.bind (hv _ (parts _ (.head _))) fun _ => h.bind (hv _ (parts _ (.tail _ (.head _))))
      fun _ => h.editAt _ fun s _ he => Store.keeps_setItem he s
  · exact h.bind (hv _ (parts _ (.head _))) fun _ =>
      h.editAt _ fun s _ he => Store.keeps_setAttribute he s
  · exact h.raiseAt _ _

theorem delete {target : Expr} (placed : S.expr target) :
    related (delete d target) (delete d' target) := by
  have parts (d : Expr) (part : d ∈ target.parts) : S.expr d := S.parts placed part
  unfold Setting.delete
  split
  · exact h.unbind _
  · exact h.deleteAll hp parts
  · exact h.deleteAll hp parts
  · exact h.bind (hv _ (parts _ (.head _))) fun _ => h.bind (hv _ (parts _ (.tail _ (.head _))))
      fun _ => h.editAt _ fun s _ he => Store.keeps_deleteItem he s
  · exact h.bind (hv _ (parts _ (.head _))) fun _ =>
      h.editAt _ fun s _ he => Store.keeps_deleteAttribute he s
  · exact h.raiseAt _ _

theorem placement {t : Placement} (placed : S.Places t) :
    related (placement d t) (placement d' t) := by
  cases t with
  | assign target v => exact h.assign hv hp v placed
  | delete target => exact h.delete hv hp placed

/-! ### Statements -/

theorem plain {s : Stmt} (plain : s.isPlain = true) (asked : ∀ e ∈ s.operands, S.expr e)
    (here : S.call s.pos)
    (newFunction : ∀ head body, s = .function head body → ∀ defaults scope,
      related (Action.edit (Store.newFunction ⟨⟨head, body⟩, defaults, scope⟩))
        (Action.edit (Store.newFunction ⟨⟨head, body⟩, defaults, scope⟩))) :
    related (env.perform d s) (env'.perform d' s) := by
  cases s with
  | function head body => exact h.defineFunction hv asked here (newFunction head body rfl)
  | delete targets p => exact h.deleteAll hp asked
  | assign targets value p =>
    exact h.bind (hv _ (asked _ (.head _))) fun v =>
      h.assignEach hp v fun t ht => asked t (.tail _ ht)
  | augment target op value p =>
    exact h.augment hv op p (asked _ (.head _)) (asked _ (.tail _ (.head _)))
  | annotate target annotation value p =>
    cases value with
    | none => exact h.pure ()
    | some value =>
      exact h.bind (hv _ (asked _ (.tail _ (.head _)))) fun _ => hp _ (asked _ (.head _))
  | withBlock items body p =>
    have contexts (i : WithItem) (hi : i ∈ items) := asked i.context (List.mem_map_of_mem hi)
    exact h.bind (h.context hv contexts) fun _ => h.raiseAt _ p
  | raise exc p => exact h.raise hv (fun e he => asked e (Option.mem_toList.2 he)) here
  | assert test message p =>
    exact h.assert hv p (asked _ (.head _)) fun e he => asked e (.tail _ (Option.mem_toList.2 he))
  | importNames names p => exact h.raiseAt _ p
  | importFrom source names p =>
    simp only [Setting.perform]
    split
    · exact h.raiseAt _ p
    · exact h.raiseAt _ p
  | globalDecl names p | nonlocalDecl names p | pass p => exact h.pure ()
  | expr e p => exact h.discard (hv _ (asked e (.head _)))
  | classDef | ret | forLoop | whileLoop | cond | tryBlock | brk | cont => cases plain

end Expressions

end StepRelation

end Footprint
