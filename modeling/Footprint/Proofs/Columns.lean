import Footprint.Proofs.MoreSteps
import Footprint.Proofs.Relocation

set_option autoImplicit false

/-!
Columns do not matter to what runs. Expressions that differ in the columns of their parts come to
the same on machines that differ in the column they stand at: only the column that a failure tells
may be another one. Calls keep columns to themselves, as the first statement of a body sets the
place anew.
-/

namespace Footprint

/-- All that stands on a line is moved to where the line starts. -/
def toLineStart : Relocation := ⟨fun p => ⟨p.line, 1⟩, id⟩

theorem toLineStart_inj {p q : Position} :
    toLineStart.position p = toLineStart.position q ↔ p.line = q.line := by
  simp [toLineStart]

/-- The expressions differ in the columns of their parts, if at all. -/
def Expr.Abreast (e e' : Expr) : Prop := e.moved toLineStart = e'.moved toLineStart

/-- The failures differ in the column they tell, if at all. -/
inductive Failure.Abreast : Failure → Failure → Prop
  | exception (kind message : String) {p q : Position} : p.line = q.line →
      Abreast (.exception kind message p) (.exception kind message q)
  | listener (message : String) {p q : Position} : p.line = q.line →
      Abreast (.listener message p) (.listener message q)
  | deadline (milliseconds : Nat) {p q : Position} : p.line = q.line →
      Abreast (.deadline ⟨milliseconds, p⟩) (.deadline ⟨milliseconds, q⟩)
  | unsupported (message : String) {p q : Position} : p.line = q.line →
      Abreast (.unsupported message p) (.unsupported message q)
  | noSuchFunction (name : String) : Abreast (.noSuchFunction name) (.noSuchFunction name)

namespace Failure.Abreast

variable {f g : Failure}

theorem refl (f : Failure) : f.Abreast f := by
  cases f with
  | exception kind message p => exact .exception kind message rfl
  | listener message p => exact .listener message rfl
  | deadline missed => exact .deadline missed.milliseconds rfl
  | unsupported message p => exact .unsupported message rfl
  | noSuchFunction name => exact .noSuchFunction name

theorem ofFault (f : Fault) {p q : Position} (h : p.line = q.line) :
    (ofFault f p).Abreast (ofFault f q) := by
  unfold Failure.ofFault
  split
  · exact .exception _ _ h
  · exact .unsupported _ h

theorem isCatchable_eq (h : f.Abreast g) : f.isCatchable = g.isCatchable := by
  cases h <;> rfl

/-- Such failures are of one kind and read the same. -/
theorem message_eq (h : f.Abreast g) : f.kind? = g.kind? ∧ f.message = g.message := by
  cases h with
  | exception kind message lines | listener message lines | deadline ms lines
  | unsupported message lines =>
    refine ⟨rfl, ?_⟩
    unfold Failure.message
    dsimp only
    rw [lines]
  | noSuchFunction name => exact ⟨rfl, rfl⟩

end Failure.Abreast

variable {σ α β : Type}

/-- The machines differ in the column they stand at, if at all. -/
def Machine.Abreast (m m' : Machine σ) : Prop :=
  ∃ p, m.pos.line = p.line ∧ m' = { m with pos := p }

theorem Machine.Abreast.refl (m : Machine σ) : m.Abreast m := ⟨m.pos, rfl, rfl⟩

/-- The computations have ended in the same way, up to columns. -/
inductive Ending.Abreast : Ending σ α → Ending σ α → Prop
  | done (a : α) {m m' : Machine σ} : m.Abreast m' → Abreast (.done a m) (.done a m')
  | failed {f f' : Failure} {m m' : Machine σ} : f.Abreast f' → m.Abreast m' →
      Abreast (.failed f m) (.failed f' m')
  | unfinished {m m' : Machine σ} : m.Abreast m' → Abreast (.unfinished m) (.unfinished m')

theorem Ending.Abreast.refl (r : Ending σ α) : r.Abreast r := by
  cases r with
  | done a m => exact .done a (.refl m)
  | failed f m => exact .failed (.refl f) (.refl m)
  | unfinished m => exact .unfinished (.refl m)

/-- One of them has ended if the other one has. -/
theorem Ending.Abreast.ended_iff {r r' : Ending σ α} (h : r.Abreast r') :
    (∀ m, r ≠ .unfinished m) ↔ ∀ m, r' ≠ .unfinished m := by
  cases h with
  | done a hm => exact iff_of_true nofun nofun
  | failed hf hm => exact iff_of_true nofun nofun
  | unfinished hm => exact iff_of_false (fun h => h _ rfl) fun h => h _ rfl

/-- On machines that stand on one line the computations end in the same way, up to columns. -/
def Action.Abreast (x y : Action σ α) : Prop :=
  ∀ ⦃m m' : Machine σ⦄, m.Abreast m' → (x m).Abreast (y m')

namespace Action.Abreast

open Footprint.Action Footprint.Setting

variable {p q : Position}

/-! ### Steps -/

theorem pure (a : α) : Abreast (pure a : Action σ α) (pure a) := fun _ _ h => .done a h

theorem bindAt {x y : Action σ α} {f g : α → Action σ β} {m m' : Machine σ}
    (first : (x m).Abreast (y m'))
    (hf : ∀ a n n', x m = .done a n → n.Abreast n' → (f a n).Abreast (g a n')) :
    ((x >>= f) m).Abreast ((y >>= g) m') := by
  rw [bind_apply, bind_apply]
  generalize x m = r at first hf ⊢
  generalize y m' = r' at first ⊢
  cases first with
  | done a h => exact hf a _ _ rfl h
  | failed failures h => exact .failed failures h
  | unfinished h => exact .unfinished h

theorem bind {x y : Action σ α} {f g : α → Action σ β} (hx : Abreast x y)
    (hf : ∀ a, Abreast (f a) (g a)) : Abreast (x >>= f) (y >>= g) :=
  fun _ _ h => bindAt (hx h) fun a _ _ _ h' => hf a h'

theorem observe (f : Store → Option (Except Failure α)) :
    Abreast (observe f : Action σ α) (observe f) := by
  rintro m - ⟨p, hp, rfl⟩
  unfold Action.observe
  dsimp only
  split
  · exact .done _ ⟨p, hp, rfl⟩
  · exact .failed (.refl _) ⟨p, hp, rfl⟩
  · exact .unfinished ⟨p, hp, rfl⟩

theorem read (f : Store → α) : Abreast (read f : Action σ α) (read f) := observe _

theorem await (x : Option α) : Abreast (await x : Action σ α) (await x) := observe _

theorem attemptAt (h : p.line = q.line) (f : Store → Attempt α) :
    Abreast (attemptAt p f : Action σ α) (attemptAt q f) := by
  rintro m - ⟨o, ho, rfl⟩
  unfold Action.attemptAt Action.observe
  dsimp only
  cases (f m.store).run with
  | none => exact .unfinished ⟨o, ho, rfl⟩
  | some r =>
    cases r with
    | ok a => exact .done a ⟨o, ho, rfl⟩
    | error fault => exact .failed (.ofFault fault h) ⟨o, ho, rfl⟩

theorem readAt (h : p.line = q.line) (f : Store → Except Fault α) :
    Abreast (readAt p f : Action σ α) (readAt q f) := by
  rintro m - ⟨o, ho, rfl⟩
  unfold Action.readAt Action.observe
  dsimp only
  cases f m.store with
  | ok a => exact .done a ⟨o, ho, rfl⟩
  | error fault => exact .failed (.ofFault fault h) ⟨o, ho, rfl⟩

theorem lift (h : p.line = q.line) (x : Except Fault α) :
    Abreast (lift p x : Action σ α) (lift q x) := readAt h _

theorem raiseAt (h : p.line = q.line) (f : Fault) :
    Abreast (raiseAt f p : Action σ α) (raiseAt f q) := lift h (.error f)

theorem edit (e : Edit α) : Abreast (edit e : Action σ α) (edit e) := by
  rintro m - ⟨o, ho, rfl⟩
  exact .done _ ⟨o, ho, rfl⟩

theorem editAt (h : p.line = q.line) (plan : Store → Except Fault (Edit α)) :
    Abreast (editAt p plan : Action σ α) (editAt q plan) := by
  rintro m - ⟨o, ho, rfl⟩
  unfold Action.editAt
  dsimp only
  cases plan m.store with
  | ok e => exact edit e ⟨o, ho, rfl⟩
  | error fault => exact .failed (.ofFault fault h) ⟨o, ho, rfl⟩

theorem frameKind : Abreast (frameKind : Action σ FrameKind) frameKind := by
  rintro m - ⟨o, ho, rfl⟩
  exact .done _ ⟨o, ho, rfl⟩

theorem setPos (h : p.line = q.line) : Abreast (setPos p : Action σ Unit) (setPos q) := by
  rintro m - ⟨o, ho, rfl⟩
  exact .done () ⟨q, h, rfl⟩

theorem write (text : String) : Abreast (write text : Action σ Unit) (write text) := by
  rintro m - ⟨o, ho, rfl⟩
  refine .done () ⟨o, ho, ?_⟩
  dsimp only
  rw [ho]

theorem backAt {x y : Action σ α} (h : p.line = q.line) (hx : Abreast x y) :
    Abreast (backAt p x) (backAt q y) := by
  intro m m' hm
  unfold Action.backAt
  have inside := hx hm
  generalize x m = r at inside ⊢
  generalize y m' = r' at inside ⊢
  have places {m m' : Machine σ} (hm : m.Abreast m') :
      Machine.Abreast { m with pos := p } { m' with pos := q } := by
    obtain ⟨o, -, rfl⟩ := hm
    exact ⟨q, h, rfl⟩
  cases inside with
  | done a h' => exact .done a (places h')
  | failed hf h' => exact .failed hf (places h')
  | unfinished h' => exact .unfinished h'

theorem frame : Abreast (frame : Action σ Frame) frame := by
  rintro m - ⟨o, ho, rfl⟩
  exact .done _ ⟨o, ho, rfl⟩

theorem modifyFrame (f : Frame → Frame) :
    Abreast (modifyFrame f : Action σ Unit) (modifyFrame f) := by
  rintro m - ⟨o, ho, rfl⟩
  exact .done () ⟨o, ho, rfl⟩

theorem push (f : Frame) : Abreast (push f : Action σ Unit) (push f) := by
  rintro m - ⟨o, ho, rfl⟩
  exact .done () ⟨o, ho, rfl⟩

theorem pop : Abreast (pop : Action σ Unit) pop := by
  rintro m - ⟨o, ho, rfl⟩
  exact .done () ⟨o, ho, rfl⟩

theorem result : Abreast (result : Action σ Value) result := by
  rintro m - ⟨o, ho, rfl⟩
  rw [result_apply, result_apply]
  dsimp only
  split
  · exact .done _ ⟨o, ho, rfl⟩
  · exact .done _ ⟨o, ho, rfl⟩

theorem store (name : String) (v : Value) :
    Abreast (store name v : Action σ Unit) (store name v) := by
  apply frameKind.bind
  rintro k m - ⟨o, ho, rfl⟩
  exact editAt ho (·.assign k name v) ⟨o, ho, rfl⟩

theorem discard {x y : Action σ α} (h : Abreast x y) : Abreast (discard x) (discard y) :=
  h.bind fun _ => pure ()

theorem fail {f g : Failure} (h : f.Abreast g) : Abreast (fail f : Action σ α) (fail g) := by
  rintro m - ⟨o, ho, rfl⟩
  exact .failed h ⟨o, ho, rfl⟩

/-! ### Events -/

section

variable (env : Setting σ)

theorem ask (e : Event) : Abreast (env.ask e) (env.ask e) := by
  rintro m - ⟨o, ho, rfl⟩
  rw [ask_apply, ask_apply]
  dsimp only
  cases env.listener with
  | none => exact .done _ ⟨o, ho, rfl⟩
  | some l =>
    cases m.stack.back? with
    | none => exact .done _ ⟨o, ho, rfl⟩
    | some frame =>
      dsimp only
      split
      · split
        · exact .done _ ⟨o, ho, rfl⟩
        · exact .failed (.listener _ ho) ⟨o, ho, rfl⟩
      · exact .done _ ⟨o, ho, rfl⟩

theorem tell (e : Event) : Abreast (env.tell e) (env.tell e) := (ask env e).discard

theorem checkDeadline : Abreast env.checkDeadline env.checkDeadline := by
  rintro m - ⟨o, ho, rfl⟩
  unfold Setting.checkDeadline
  split
  · exact .done () ⟨o, ho, rfl⟩
  · dsimp only
    split
    · exact .failed (.deadline _ ho) ⟨o, ho, rfl⟩
    · exact .done () ⟨o, ho, rfl⟩

theorem markLine (line : Nat) : Abreast (env.markLine line) (env.markLine line) :=
  (checkDeadline env).bind fun _ => (modifyFrame _).bind fun _ => tell env .line

theorem markLines (lines : List Nat) : Abreast (env.markLines lines) (env.markLines lines) := by
  induction lines with
  | nil => exact pure ()
  | cons n ns ih => exact (markLine env n).bind fun _ => ih

theorem announce : Abreast env.announce env.announce := by
  apply (ask env .call).bind
  intro c
  split
  · exact modifyFrame _
  · exact pure ()

theorem markHeader : Abreast env.markHeader env.markHeader := by
  apply frame.bind
  intro f
  split
  · exact markLine env f.line
  · exact pure ()

theorem report {f g : Failure} (h : f.Abreast g) : Abreast (env.report f) (env.report g) := by
  apply frame.bind
  intro top
  rw [h.isCatchable_eq]
  split
  · exact (modifyFrame _).bind fun _ => tell env .exception
  · exact pure ()

theorem reportingAt {x y : Action σ Unit} {m m' : Machine σ} (h : (x m).Abreast (y m')) :
    (env.reporting x m).Abreast (env.reporting y m') := by
  unfold Setting.reporting Action.proceed
  generalize x m = r at h ⊢
  generalize y m' = r' at h ⊢
  cases h with
  | done a h' =>
    obtain ⟨o, ho, rfl⟩ := h'
    dsimp only
    split
    · exact .done () ⟨o, ho, rfl⟩
    · exact .done () ⟨o, ho, rfl⟩
  | failed hf h' => exact (report env hf).bind (fun _ => fail hf) h'
  | unfinished h' => exact .unfinished h'

end

/-! ### Built-in functions -/

section

variable (env : Setting σ)

theorem goThrough {step step' : α → Value → Action σ α}
    (hstep : ∀ a v, Abreast (step a v) (step' a v)) (a : α) (items : Items) :
    Abreast (env.goThrough step a items) (env.goThrough step' a items) := by
  have loop (k : Nat) (f g : α × Nat → Value → Action σ (α × Nat))
      (hfg : ∀ acc v, Abreast (f acc v) (g acc v)) (acc : α × Nat) (items : Items) :
      Abreast (items.foldUpTo f k acc) (items.foldUpTo g k acc) := by
    induction k generalizing acc items with
    | zero => exact pure acc
    | succ k ih =>
      unfold Items.foldUpTo
      cases items.next? with
      | none => exact pure acc
      | some next => exact (hfg acc next.1).bind fun acc' => ih acc' next.2
  refine (loop _ _ _ (fun acc v => ?_) (a, 0) items).bind fun acc => pure acc.1
  have taken : Abreast (do return (← step acc.1 v, acc.2 + 1))
      (do return (← step' acc.1 v, acc.2 + 1)) := (hstep acc.1 v).bind fun a => pure (a, acc.2 + 1)
  split
  · exact (checkDeadline env).bind fun _ => taken
  · exact taken

theorem collect (h : p.line = q.line) (v : Value) :
    Abreast (env.collect p v) (env.collect q v) :=
  (lift h _).bind fun _ => (readAt h _).bind fun items =>
    goThrough env (fun vs v => pure (vs.push v)) #[] items

theorem print (args : List Value) : Abreast (print args : Action σ Value) (print args) :=
  (read _).bind fun _ => (await _).bind fun _ => (write _).bind fun _ => pure _

theorem extreme (h : p.line = q.line) (name : String) (op : CompareOp) (args : List Value) :
    Abreast (env.extreme name op args p) (env.extreme name op args q) := by
  have candidates : Abreast (candidates name args p : Action σ Items) (candidates name args q) := by
    unfold Setting.candidates
    split
    · exact raiseAt h _
    · exact readAt h _
    · exact pure _
  apply candidates.bind
  intro items
  split
  · exact raiseAt h _
  · exact goThrough env (fun _ _ => (attemptAt h _).bind fun _ => pure _) _ _

theorem sum (h : p.line = q.line) (args : List Value) :
    Abreast (env.sum args p) (env.sum args q) :=
  (lift h _).bind fun _ => (readAt h _).bind fun items =>
    goThrough env (fun _ _ => editAt h _) _ items

theorem callBuiltin (h : p.line = q.line) (b : Builtin) (args : List Value) :
    Abreast (env.callBuiltin b args p) (env.callBuiltin b args q) := by
  cases b with
  | print => exact print args
  | range | abs => exact lift h _
  | len => exact (lift h _).bind fun _ => (readAt h _).bind fun _ => pure _
  | min | max => exact extreme env h _ _ args
  | sum => exact sum env h args
  | int | float =>
    apply (lift h _).bind
    rintro (_ | v)
    · exact pure _
    · exact lift h _
  | str =>
    apply (lift h _).bind
    rintro (_ | v)
    · exact pure _
    · exact (read _).bind fun _ => (await _).bind fun _ => pure _
  | bool =>
    apply (lift h _).bind
    rintro (_ | v)
    · exact pure _
    · exact (read _).bind fun _ => pure _
  | list =>
    apply (lift h _).bind
    rintro (_ | v)
    · exact edit _
    · exact (collect env h v).bind fun _ => edit _

/-! ### Calls -/

theorem finish {r r' : Ending σ Value} (h : r.Abreast r') :
    (env.finish r).Abreast (env.finish r') := by
  have told {m m' : Machine σ} (hm : m.Abreast m') :
      (env.tell .ret { m with jump := .none }).Abreast
        (env.tell .ret { m' with jump := .none }) := by
    obtain ⟨o, ho, rfl⟩ := hm
    exact tell env .ret ⟨o, ho, rfl⟩
  unfold Setting.finish
  cases h with
  | @done v m m' hm =>
    have told := told hm
    dsimp only
    generalize env.tell .ret { m with jump := .none } = t at told ⊢
    generalize env.tell .ret { m' with jump := .none } = t' at told ⊢
    cases told with
    | done _ h => exact pop.bind (fun _ => pure v) h
    | failed hf h => exact pop.bind (fun _ => fail hf) h
    | unfinished h => exact .unfinished h
  | @failed f f' m m' hf hm =>
    have told := told hm
    dsimp only
    generalize env.tell .ret { m with jump := .none } = t at told ⊢
    generalize env.tell .ret { m' with jump := .none } = t' at told ⊢
    cases told with
    | done _ h | failed _ h => exact pop.bind (fun _ => fail hf) h
    | unfinished h => exact .unfinished h
  | unfinished hm => exact .unfinished hm

theorem inFrame (frame : Frame) {x y : Action σ Unit} (h : Abreast x y) :
    Abreast (env.inFrame frame x) (env.inFrame frame y) := by
  have inside : Abreast
      (do Action.push frame; env.announce; env.markHeader; x; Action.result)
      (do Action.push frame; env.announce; env.markHeader; y; Action.result) :=
    (push frame).bind fun _ => (announce env).bind fun _ => (markHeader env).bind fun _ =>
      h.bind fun _ => result
  rintro m - ⟨o, ho, rfl⟩
  unfold Setting.inFrame
  dsimp only
  split
  · exact raiseAt ho _ ⟨o, ho, rfl⟩
  · exact finish env (inside ⟨o, ho, rfl⟩)

theorem callFunction (h : p.line = q.line) (r : FunctionRef) (args : List Value)
    {x y : Function → Action σ Unit} (hxy : ∀ f, Abreast (x f) (y f)) :
    Abreast (env.callFunction r args p x) (env.callFunction r args q y) := by
  apply (read _).bind
  rintro (_ | f)
  · exact raiseAt h _
  · exact (lift h _).bind fun _ => (edit _).bind fun _ => backAt h (inFrame env _ (hxy f.function))

end

end Action.Abreast

/-! ### Expressions -/

/-- Requests for the values of expressions, or for a call, that differ in columns. -/
inductive Evaluation.Abreast : Evaluation → Evaluation → Prop
  | expr {e e' : Expr} : e.Abreast e' → Abreast (.expr e) (.expr e')
  | call (callee : Value) (args : List Value) {p q : Position} : p.line = q.line →
      Abreast (.call callee args p) (.call callee args q)

namespace Setting

open Footprint.Action

section

variable {value value' : Evaluation → Action σ Value}
  (hv : ∀ {e e' : Expr}, e.Abreast e' → (value (.expr e)).Abreast (value' (.expr e')))

include hv

theorem abreast_evalAll {es es' : List Expr}
    (h : Expr.movedAll toLineStart es = Expr.movedAll toLineStart es') :
    (evalAll value es).Abreast (evalAll value' es') := by
  induction es generalizing es' with
  | nil =>
    cases es' with
    | nil => exact .pure []
    | cons e es => cases h
  | cons e es ih =>
    cases es' with
    | nil => cases h
    | cons e' es' =>
      obtain ⟨he, hes⟩ := List.cons.inj h
      exact (hv he).bind fun v => (ih hes).bind fun vs => .pure (v :: vs)

theorem abreast_evalLogic (op : BoolOp) {es es' : List Expr}
    (h : Expr.movedAll toLineStart es = Expr.movedAll toLineStart es') :
    (evalLogic value op es).Abreast (evalLogic value' op es') := by
  induction es generalizing es' with
  | nil =>
    cases es' with
    | nil => exact .pure _
    | cons e es => cases h
  | cons e es ih =>
    cases es' with
    | nil => cases h
    | cons e' es' =>
      obtain ⟨he, hes⟩ := List.cons.inj h
      cases es with
      | nil =>
        cases es' with
        | nil => exact hv he
        | cons d ds => cases hes
      | cons d ds =>
        cases es' with
        | nil => cases hes
        | cons d' ds' =>
          refine (hv he).bind fun v => (Action.Abreast.read _).bind fun truth => ?_
          split
          · exact .pure v
          · exact ih hes

theorem abreast_evalLinks {p q : Position} (hp : p.line = q.line) (a : Value)
    {links links' : List (CompareOp × Expr)}
    (h : Expr.movedLinks toLineStart links = Expr.movedLinks toLineStart links') :
    (evalLinks value p a links).Abreast (evalLinks value' q a links') := by
  induction links generalizing links' a with
  | nil =>
    cases links' with
    | nil => exact .pure _
    | cons l ls => cases h
  | cons l ls ih =>
    cases links' with
    | nil => cases h
    | cons l' ls' =>
      obtain ⟨op, e⟩ := l
      obtain ⟨op', e'⟩ := l'
      obtain ⟨hl, hls⟩ := List.cons.inj h
      obtain ⟨rfl, he⟩ := Prod.mk.inj hl
      refine (hv he).bind fun b => (Action.Abreast.attemptAt hp _).bind fun holds => ?_
      split
      · exact ih b hls
      · exact .pure _

end

section

variable {c c' : Calls σ}

/-- What expressions come to, if what they ask for comes to the same. -/
theorem abreast_evalExpr
    (hv : ∀ {t t' : Evaluation}, t.Abreast t' → (c.value t).Abreast (c'.value t'))
    {e e' : Expr} (h : e.Abreast e') : (evalExpr c e).Abreast (evalExpr c' e') := by
  have eval {e e' : Expr} (h : e.Abreast e') : (c.eval e).Abreast (c'.eval e') := hv (.expr h)
  cases e with
  | name id p =>
    cases e' with
    | name id' q =>
      obtain ⟨rfl, hp⟩ := Expr.name.inj h
      exact Action.Abreast.frameKind.bind fun k => .readAt (toLineStart_inj.1 hp) _
    | _ => cases h
  | const k p =>
    cases e' with
    | const k' q =>
      obtain ⟨rfl, -⟩ := Expr.const.inj h
      exact .pure _
    | _ => cases h
  | list items p =>
    cases e' with
    | list items' q =>
      obtain ⟨hitems, -⟩ := Expr.list.inj h
      exact (abreast_evalAll eval hitems).bind fun vs => .edit _
    | _ => cases h
  | tuple items p =>
    cases e' with
    | tuple items' q =>
      obtain ⟨hitems, -⟩ := Expr.tuple.inj h
      exact (abreast_evalAll eval hitems).bind fun vs => .edit _
    | _ => cases h
  | binary op left right p =>
    cases e' with
    | binary op' left' right' q =>
      obtain ⟨rfl, hleft, hright, hp⟩ := Expr.binary.inj h
      exact (eval hleft).bind fun a => (eval hright).bind fun b => .editAt (toLineStart_inj.1 hp) _
    | _ => cases h
  | unary op operand p =>
    cases e' with
    | unary op' operand' q =>
      obtain ⟨rfl, hoperand, hp⟩ := Expr.unary.inj h
      exact (eval hoperand).bind fun a => .readAt (toLineStart_inj.1 hp) _
    | _ => cases h
  | logic op operands p =>
    cases e' with
    | logic op' operands' q =>
      obtain ⟨rfl, hoperands, -⟩ := Expr.logic.inj h
      exact abreast_evalLogic eval op hoperands
    | _ => cases h
  | compare left links p =>
    cases e' with
    | compare left' links' q =>
      obtain ⟨hleft, hlinks, hp⟩ := Expr.compare.inj h
      exact (eval hleft).bind fun a => abreast_evalLinks eval (toLineStart_inj.1 hp) a hlinks
    | _ => cases h
  | call callee args p =>
    cases e' with
    | call callee' args' q =>
      obtain ⟨hcallee, hargs, hp⟩ := Expr.call.inj h
      exact (eval hcallee).bind fun f => (abreast_evalAll eval hargs).bind fun vs =>
        hv (.call f vs (toLineStart_inj.1 hp))
    | _ => cases h
  | member object attr p =>
    cases e' with
    | member object' attr' q =>
      obtain ⟨hobject, rfl, hp⟩ := Expr.member.inj h
      exact (eval hobject).bind fun o => .readAt (toLineStart_inj.1 hp) _
    | _ => cases h
  | subscript object index p =>
    cases e' with
    | subscript object' index' q =>
      obtain ⟨hobject, hindex, hp⟩ := Expr.subscript.inj h
      exact (eval hobject).bind fun o => (eval hindex).bind fun i =>
        .readAt (toLineStart_inj.1 hp) _
    | _ => cases h
  | choice test body orelse p =>
    cases e' with
    | choice test' body' orelse' q =>
      obtain ⟨htest, hbody, horelse, -⟩ := Expr.choice.inj h
      refine (eval htest).bind fun t => (Action.Abreast.read _).bind fun truth => ?_
      split
      · exact eval hbody
      · exact eval horelse
    | _ => cases h

end

variable (env : Setting σ)

/-- A statement sets the place anew, so it does not matter in which column it is begun. -/
theorem abreast_block (n : Nat) (body : List Stmt) :
    ((env.calls n).block body).Abreast ((env.calls n).block body) := by
  cases n with
  | zero => exact .observe fun _ => none
  | succ n =>
    cases body with
    | nil => exact .pure ()
    | cons s rest =>
      rintro m - ⟨o, ho, rfl⟩
      cases n with
      | zero => exact .unfinished ⟨o, ho, rfl⟩
      | succ n => exact Ending.Abreast.refl _

theorem abreast_callValue (n : Nat) (callee : Value) (args : List Value) {p q : Position}
    (h : p.line = q.line) :
    (env.callValue (env.calls n) callee args p).Abreast
      (env.callValue (env.calls n) callee args q) := by
  unfold callValue
  split
  · exact .callFunction env h _ args fun f => env.abreast_block n f.runBody
  · exact .callBuiltin env h _ args
  · exact .editAt h _
  · exact (Action.Abreast.read _).bind fun _ => (Action.Abreast.await _).bind fun _ => .edit _
  · exact (Action.Abreast.read _).bind fun _ => (Action.Abreast.await _).bind fun _ => .edit _
  · exact .raiseAt h _
  · exact .raiseAt h _

/-- What is evaluated does not depend on columns. -/
theorem abreast_evaluate (n : Nat) {t t' : Evaluation} (h : t.Abreast t') :
    (env.evaluate n t).Abreast (env.evaluate n t') := by
  induction n generalizing t t' with
  | zero => exact .observe fun _ => none
  | succ n ih =>
    cases h with
    | expr he =>
      have answers {u u' : Evaluation} (hu : u.Abreast u') :
          ((env.calls n).value u).Abreast ((env.calls n).value u') := ih hu
      exact abreast_evalExpr answers he
    | call callee args hp => exact env.abreast_callValue n callee args hp

end Setting

end Footprint
