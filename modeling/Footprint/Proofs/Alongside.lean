import Footprint.Proofs.Covered
import Footprint.Proofs.OutputLines

set_option autoImplicit false

/-!
Computations that do the same but for the script lines that their output names: at every line of the
output the two lines are in some relation. Since a text is written from the line where the run
stands, it is kept track of which lines that may be.
-/

namespace Footprint

/-! ### Outputs -/

structure OutputLine.Beside (K : Nat → Nat → Prop) (l l' : OutputLine) : Prop where
  text : l.text = l'.text
  source : K l.source l'.source

/-- The same texts in the same lines, from script lines that are in the relation. -/
structure Output.Beside (K : Nat → Nat → Prop) (o o' : Output) : Prop where
  lines : List.Forall₂ (OutputLine.Beside K) o.lines.toList o'.lines.toList
  pending : Option.Rel (OutputLine.Beside K) o.pending o'.pending

namespace Output.Beside

variable {K : Nat → Nat → Prop} {o o' : Output} {n n' : Nat}

theorem refl (same : ∀ n, K n n) (o : Output) : o.Beside K o := by
  have line (l : OutputLine) : l.Beside K l := ⟨rfl, same l.source⟩
  refine ⟨List.forall₂_same.2 fun l _ => line l, ?_⟩
  cases o.pending with
  | none => exact .none
  | some l => exact .some (line l)

theorem pendingText_eq (h : o.Beside K o') : o.pendingText = o'.pendingText := by
  obtain ⟨lines, pending⟩ := o
  obtain ⟨lines', pending'⟩ := o'
  cases h.pending with
  | none => rfl
  | some line => exact line.text

theorem put (h : o.Beside K o') (source : K n n') (c : Char) :
    (o.put n c).Beside K (o'.put n' c) := by
  rw [put_eq, put_eq, h.pendingText_eq]
  split
  · have line : OutputLine.Beside K ⟨o'.pendingText, n⟩ ⟨o'.pendingText, n'⟩ := ⟨rfl, source⟩
    refine ⟨?_, .none⟩
    simpa only [Array.toList_push] using List.rel_append h.lines (.cons line .nil)
  · exact ⟨h.lines, .some ⟨rfl, source⟩⟩

theorem write (h : o.Beside K o') (source : K n n') (text : String) :
    (o.write text n).Beside K (o'.write text n') := by
  unfold Output.write
  generalize text.toList = cs
  induction cs generalizing o o' with
  | nil => exact h
  | cons c cs ih => exact ih (h.put source c)

/-- Lines that come from the same lines are the same. -/
theorem eq (h : o.Beside Eq o') : o = o' := by
  have line {l l' : OutputLine} (h : l.Beside Eq l') : l = l' := by
    cases l
    cases l'
    exact OutputLine.mk.injEq .. ▸ ⟨h.text, h.source⟩
  have lines : o.lines.toList = o'.lines.toList :=
    List.forall₂_eq_eq_eq ▸ h.lines.imp fun _ _ => line
  obtain ⟨lines₁, pending⟩ := o
  obtain ⟨lines₂, pending'⟩ := o'
  obtain rfl : lines₁ = lines₂ := Array.toList_inj.1 lines
  cases h.pending with
  | none => rfl
  | some same => rw [line same]

end Output.Beside

variable {σ α β : Type}

/-- The computations have ended in the same way, with the same machines but for the script lines
that their outputs name. -/
inductive Ending.Beside (K : Nat → Nat → Prop) : Ending σ α → Ending σ α → Prop
  | done (a : α) {m : Machine σ} {o : Output} :
      m.output.Beside K o → Beside K (.done a m) (.done a { m with output := o })
  | failed (f : Failure) {m : Machine σ} {o : Output} :
      m.output.Beside K o → Beside K (.failed f m) (.failed f { m with output := o })
  | unfinished {m m' : Machine σ} :
      m.output.Beside K m'.output → Beside K (.unfinished m) (.unfinished m')

/-! ### Computations -/

theorem Script.Wrote.of_eq {s : Script} {t u : Store} (h : s.Wrote t)
    (same : u.functions = t.functions) : s.Wrote u := by
  intro r f found
  rw [Store.function?, same] at found
  exact h r f found

/-- The computations have ended alongside: they have made the functions of the script only and, if
they have ended normally, stand on one of the lines. -/
inductive Ending.Alongside (s : Script) (K : Nat → Nat → Prop) (B : Nat → Prop) :
    Ending σ α → Ending σ α → Prop
  | done (a : α) {m : Machine σ} {o : Output} : s.Wrote m.store → B m.pos.line →
      m.output.Beside K o → Alongside s K B (.done a m) (.done a { m with output := o })
  | failed (f : Failure) {m : Machine σ} {o : Output} : s.Wrote m.store →
      m.output.Beside K o → Alongside s K B (.failed f m) (.failed f { m with output := o })
  | unfinished {m m' : Machine σ} :
      m.output.Beside K m'.output → Alongside s K B (.unfinished m) (.unfinished m')

abbrev anyLine : Nat → Prop := fun _ => True

/-- Begun on one of the lines `A` the computations end alongside, on one of the lines `B`. -/
def Action.Alongside (s : Script) (K : Nat → Nat → Prop) (A B : Nat → Prop) (x y : Action σ α) :
    Prop :=
  ∀ ⦃m : Machine σ⦄ ⦃o : Output⦄, s.Wrote m.store → A m.pos.line → m.output.Beside K o →
    Ending.Alongside s K B (x m) (y { m with output := o })

section

variable {s : Script} {K : Nat → Nat → Prop} {A A' B B' C : Nat → Prop}

namespace Ending.Alongside

variable {r r' : Ending σ α}

theorem cases (h : r.Alongside s K B r') :
    (∃ a m o, r = .done a m ∧ r' = .done a { m with output := o } ∧ s.Wrote m.store ∧
      B m.pos.line ∧ m.output.Beside K o) ∨
    (∃ f m o, r = .failed f m ∧ r' = .failed f { m with output := o } ∧ s.Wrote m.store ∧
      m.output.Beside K o) ∨
    ∃ m m', r = .unfinished m ∧ r' = .unfinished m' ∧ m.output.Beside K m'.output := by
  cases h with
  | done a wrote stands out => exact .inl ⟨a, _, _, rfl, rfl, wrote, stands, out⟩
  | failed f wrote out => exact .inr (.inl ⟨f, _, _, rfl, rfl, wrote, out⟩)
  | unfinished out => exact .inr (.inr ⟨_, _, rfl, rfl, out⟩)

theorem beside (h : r.Alongside s K B r') : r.Beside K r' := by
  cases h with
  | done a _ _ out => exact .done a out
  | failed f _ out => exact .failed f out
  | unfinished out => exact .unfinished out

theorem mono (h : r.Alongside s K B r') (le : ∀ l, B l → B' l) : r.Alongside s K B' r' := by
  cases h with
  | done a wrote stands out => exact .done a wrote (le _ stands) out
  | failed f wrote out => exact .failed f wrote out
  | unfinished out => exact .unfinished out

end Ending.Alongside

namespace Action.Alongside

open Footprint.Action

theorem mono {x y : Action σ α} (h : x.Alongside s K A B y) (le : ∀ l, A' l → A l)
    (le' : ∀ l, B l → B' l) : x.Alongside s K A' B' y :=
  fun _ _ wrote stands out => (h wrote (le _ stands) out).mono le'

/-- From nowhere in particular is from any of the lines. -/
theorem anywhere {x y : Action σ α} (h : x.Alongside s K anyLine B y) :
    x.Alongside s K A B y := h.mono (fun _ _ => trivial) fun _ => id

/-- Where a computation ends need not be known. -/
theorem somewhere {x y : Action σ α} (h : x.Alongside s K A B y) :
    x.Alongside s K A anyLine y := h.mono (fun _ => id) fun _ _ => trivial

/-! ### Steps -/

theorem pure (a : α) : (pure a : Action σ α).Alongside s K A A (pure a) :=
  fun _ _ wrote stands out => .done a wrote stands out

theorem bind {x y : Action σ α} {f g : α → Action σ β} (h : x.Alongside s K A B y)
    (h' : ∀ a, (f a).Alongside s K B C (g a)) : (x >>= f).Alongside s K A C (y >>= g) := by
  intro m o wrote stands out
  rw [bind_apply, bind_apply]
  obtain ⟨a, n, o', e, e', wrote, stands, out⟩ | ⟨f, n, o', e, e', wrote, out⟩ |
    ⟨n, n', e, e', out⟩ := (h wrote stands out).cases <;> rw [e, e']
  · exact h' a wrote stands out
  · exact .failed f wrote out
  · exact .unfinished out

theorem observe (f : Store → Option (Except Failure α)) :
    (observe f : Action σ α).Alongside s K A A (observe f) := by
  intro m o wrote stands out
  unfold Action.observe
  dsimp only
  split
  · exact .done _ wrote stands out
  · exact .failed _ wrote out
  · exact .unfinished out

theorem fail (f : Failure) : (fail f : Action σ α).Alongside s K A B (fail f) :=
  fun _ _ wrote _ out => .failed f wrote out

theorem editAt (p : Position) {plan : Store → Except Fault (Edit α)}
    (keeps : ∀ t e, plan t = .ok e → (e t).2.functions = t.functions) :
    (editAt p plan : Action σ α).Alongside s K A A (editAt p plan) := by
  intro m o wrote stands out
  unfold Action.editAt
  dsimp only
  split
  · next e planned =>
    rw [edit_apply, edit_apply]
    exact .done _ (wrote.of_eq (keeps m.store e planned)) stands out
  · exact .failed _ wrote out

theorem newFunction {f : Closure} (made : s.Contains (.function f.function)) :
    (edit (Store.newFunction f) : Action σ Value).Alongside s K A A
      (edit (Store.newFunction f)) := by
  intro m o wrote stands out
  rw [edit_apply, edit_apply]
  refine .done _ (fun r g found => ?_) stands out
  change (m.store.functions.push f)[r.index]? = some g at found
  rw [Array.getElem?_push] at found
  split at found
  · cases found
    exact made
  · exact wrote r g found

/-- Only functions of the script are found in the store. -/
theorem lookup (r : FunctionRef) {x y : Option Closure → Action σ α}
    (h : ∀ found, (∀ f ∈ found, s.Contains (.function f.function)) →
      (x found).Alongside s K A B (y found)) :
    (read (·.function? r) >>= x).Alongside s K A B (read (·.function? r) >>= y) :=
  fun m _ wrote stands out => h (m.store.function? r) (wrote r) wrote stands out

theorem frameKind : (frameKind : Action σ FrameKind).Alongside s K A A frameKind :=
  fun _ _ wrote stands out => .done _ wrote stands out

theorem frame : (frame : Action σ Frame).Alongside s K A A frame :=
  fun _ _ wrote stands out => .done _ wrote stands out

theorem getPos : (getPos : Action σ Position).Alongside s K A A getPos :=
  fun _ _ wrote stands out => .done _ wrote stands out

theorem setPos {p : Position} (stands : B p.line) :
    (setPos p : Action σ Unit).Alongside s K A B (setPos p) :=
  fun _ _ wrote _ out => .done () wrote stands out

theorem write (same : ∀ n, K n n) (text : String) :
    (write text : Action σ Unit).Alongside s K A A (write text) :=
  fun m _ wrote stands out => .done () wrote stands (out.write (same m.pos.line) text)

theorem modifyFrame (f : Frame → Frame) :
    (modifyFrame f : Action σ Unit).Alongside s K A A (modifyFrame f) :=
  fun _ _ wrote stands out => .done () wrote stands out

theorem push (f : Frame) : (push f : Action σ Unit).Alongside s K A A (push f) :=
  fun _ _ wrote stands out => .done () wrote stands out

theorem pop : (pop : Action σ Unit).Alongside s K A A pop :=
  fun _ _ wrote stands out => .done () wrote stands out

theorem setJump (j : Jump) : (setJump j : Action σ Unit).Alongside s K A A (setJump j) :=
  fun _ _ wrote stands out => .done () wrote stands out

theorem giveBack (v : Value) : (giveBack v : Action σ Unit).Alongside s K A A (giveBack v) :=
  fun _ _ wrote stands out => .done () wrote stands out

theorem result : (result : Action σ Value).Alongside s K A A result := by
  intro m o wrote stands out
  rw [result_apply, result_apply]
  dsimp only
  split
  · exact .done _ wrote stands out
  · exact .done _ wrote stands out

theorem reraise (p : Position) : (reraise p : Action σ Unit).Alongside s K A A (reraise p) := by
  intro m o wrote stands out
  unfold Action.reraise
  dsimp only
  split
  · exact .failed _ wrote out
  · exact .failed _ wrote out

/-! ### Places -/

/-- A computation after which the run stands at a position, begun anywhere and ended anywhere. -/
theorem backAt {x y : Action σ α} {p : Position} (h : x.Alongside s K A anyLine y)
    (stands : B p.line) : (backAt p x).Alongside s K A B (backAt p y) := by
  intro m o wrote begun out
  unfold Action.backAt
  obtain ⟨a, n, o', e, e', wrote, -, out⟩ | ⟨f, n, o', e, e', wrote, out⟩ |
    ⟨n, n', e, e', out⟩ := (h wrote begun out).cases <;> simp only [e, e']
  · exact .done a wrote stands out
  · exact .failed f wrote out
  · exact .unfinished out

/-! ### The flow of control -/

theorem proceed {x y x' y' : Action σ Unit} {h h' : Failure → Action σ Unit}
    (first : x.Alongside s K A anyLine x') (next : y.Alongside s K anyLine anyLine y')
    (failing : ∀ f, (h f).Alongside s K anyLine anyLine (h' f)) :
    (proceed x y h).Alongside s K A anyLine (proceed x' y' h') := by
  intro m o wrote stands out
  unfold Action.proceed
  obtain ⟨a, n, o', e, e', wrote, -, out⟩ | ⟨f, n, o', e, e', wrote, out⟩ |
    ⟨n, n', e, e', out⟩ := (first wrote stands out).cases <;> simp only [e, e']
  · split
    · exact next wrote trivial out
    · exact .done () wrote trivial out
  · exact failing f wrote trivial out
  · exact .unfinished out

theorem round {x y x' y' : Action σ Unit} (body : x.Alongside s K A anyLine x')
    (again : y.Alongside s K anyLine anyLine y') :
    (round x y).Alongside s K A anyLine (round x' y') := by
  intro m o wrote stands out
  unfold Action.round
  obtain ⟨a, n, o', e, e', wrote, -, out⟩ | ⟨f, n, o', e, e', wrote, out⟩ |
    ⟨n, n', e, e', out⟩ := (body wrote stands out).cases <;> simp only [e, e']
  · split
    · exact again wrote trivial out
    · exact again (m := { n with jump := .none }) wrote trivial out
    · exact .done () (m := { n with jump := .none }) wrote trivial out
    · exact .done () wrote trivial out
  · exact .failed f wrote out
  · exact .unfinished out

theorem putAside {x x' : Action σ Unit} {pending pending' : Machine σ → Ending σ Unit}
    (final : x.Alongside s K A anyLine x')
    (after : Alongside s K anyLine anyLine pending pending') :
    Alongside s K A anyLine (putAside x pending) (putAside x' pending') := by
  intro m o wrote stands out
  rw [putAside_apply, putAside_apply]
  obtain ⟨a, n, o', e, e', wrote, -, out⟩ | ⟨f, n, o', e, e', wrote, out⟩ |
    ⟨n, n', e, e', out⟩ :=
    (final (m := { m with jump := .none, returned := .none }) wrote stands out).cases <;>
    simp only [e, e']
  · split
    · exact after (m := { n with jump := m.jump, returned := m.returned }) wrote trivial out
    · exact .done () wrote trivial out
  · exact .failed f wrote out
  · exact .unfinished out

theorem lastly {x x' y y' : Action σ Unit} (first : x.Alongside s K A anyLine x')
    (final : y.Alongside s K anyLine anyLine y') :
    (lastly x y).Alongside s K A anyLine (lastly x' y') := by
  intro m o wrote stands out
  unfold Action.lastly
  obtain ⟨a, n, o', e, e', wrote, -, out⟩ | ⟨f, n, o', e, e', wrote, out⟩ |
    ⟨n, n', e, e', out⟩ := (first wrote stands out).cases <;> simp only [e, e']
  · exact final.putAside (fun _ _ wrote _ out => .done () wrote trivial out) wrote trivial out
  · exact final.putAside (fun _ _ wrote _ out => .failed f wrote out) wrote trivial out
  · exact .unfinished out

theorem whileHandling {x x' : Action σ Unit} (f : Failure) (h : x.Alongside s K A B x') :
    (whileHandling f x).Alongside s K A B (whileHandling f x') := by
  intro m o wrote stands out
  unfold Action.whileHandling
  obtain ⟨a, n, o', e, e', wrote, stands, out⟩ | ⟨f', n, o', e, e', wrote, out⟩ |
    ⟨n, n', e, e', out⟩ :=
    (h (m := { m with handling := f :: m.handling }) wrote stands out).cases <;> simp only [e, e']
  · exact .done () (m := { n with handling := n.handling.tail }) wrote stands out
  · exact .failed f' (m := { n with handling := n.handling.tail }) wrote out
  · exact .unfinished out

theorem thenForget {x x' : Action σ Unit} (name : Option String)
    (h : x.Alongside s K A anyLine x') :
    (thenForget name x).Alongside s K A anyLine (thenForget name x') := by
  cases name with
  | none => exact h
  | some name =>
    -- whether the name is bound does not depend on the output
    have forgotten (n : Machine σ) (o : Output) :
        Machine.forget { n with output := o } name = { n.forget name with output := o } ∧
          (n.forget name).output = n.output := by
      rw [Machine.forget_eq, Machine.forget_eq]
      dsimp only
      split <;> exact ⟨rfl, rfl⟩
    intro m o wrote stands out
    unfold Action.thenForget
    obtain ⟨a, n, o', e, e', wrote, -, out⟩ | ⟨f, n, o', e, e', wrote, out⟩ |
      ⟨n, n', e, e', out⟩ := (h wrote stands out).cases <;> simp only [e, e']
    · rw [(forgotten n o').1]
      rw [← (forgotten n o').2] at out
      exact .done () (wrote.of_eq (forget_functions n name)) trivial out
    · rw [(forgotten n o').1]
      rw [← (forgotten n o').2] at out
      exact .failed f (wrote.of_eq (forget_functions n name)) out
    · exact .unfinished out

/-! ### Events and frames -/

section

variable (env : Setting σ)

theorem ask (e : Event) : (env.ask e).Alongside s K A A (env.ask e) := by
  intro m o wrote stands out
  rw [Setting.ask_apply, Setting.ask_apply]
  dsimp only
  split
  · split
    · split
      · exact .done _ wrote stands out
      · exact .failed _ wrote out
    · exact .done _ wrote stands out
  · exact .done _ wrote stands out

theorem tell (e : Event) : (env.tell e).Alongside s K A A (env.tell e) :=
  (ask env e).bind fun _ => .pure ()

theorem checkDeadline : env.checkDeadline.Alongside s K A A env.checkDeadline := by
  intro m o wrote stands out
  unfold Setting.checkDeadline
  split
  · exact .done () wrote stands out
  · dsimp only
    split
    · exact .failed _ wrote out
    · exact .done () wrote stands out

theorem startTimer : env.startTimer.Alongside s K A A env.startTimer :=
  fun _ _ wrote stands out => .done () wrote stands out

theorem markLine (n : Nat) : (env.markLine n).Alongside s K A A (env.markLine n) :=
  (checkDeadline env).bind fun _ => (modifyFrame _).bind fun _ => tell env .line

theorem markLines (ns : List Nat) : (env.markLines ns).Alongside s K A A (env.markLines ns) := by
  induction ns with
  | nil => exact .pure ()
  | cons n ns ih => exact (markLine env n).bind fun _ => ih

theorem report (f : Failure) : (env.report f).Alongside s K A A (env.report f) := by
  refine frame.bind fun g => ?_
  split
  · exact (modifyFrame _).bind fun _ => tell env .exception
  · exact .pure ()

theorem announce : env.announce.Alongside s K A A env.announce := by
  refine (ask env .call).bind fun answer => ?_
  split
  · exact modifyFrame _
  · exact .pure ()

theorem markHeader : env.markHeader.Alongside s K A A env.markHeader := by
  refine frame.bind fun f => ?_
  split
  · exact markLine env _
  · exact .pure ()

theorem reporting {x x' : Action σ Unit} (h : x.Alongside s K A anyLine x') :
    (env.reporting x).Alongside s K A anyLine (env.reporting x') :=
  proceed h (.pure ()) fun f => (report env f).bind fun _ => .fail f

theorem finish {r r' : Ending σ Value} (h : r.Alongside s K anyLine r') :
    (env.finish r).Alongside s K anyLine (env.finish r') := by
  have told {n : Machine σ} {o : Output} (wrote : s.Wrote n.store) (out : n.output.Beside K o) :=
    tell env .ret (A := anyLine) (m := { n with jump := .none }) wrote trivial out
  have lost (f : Failure) : (do Action.pop; Action.fail f : Action σ Value).Alongside s K
      anyLine anyLine (do Action.pop; Action.fail f) := pop.bind fun _ => .fail f
  obtain ⟨v, n, o, rfl, rfl, wrote, -, out⟩ | ⟨f, n, o, rfl, rfl, wrote, out⟩ |
    ⟨n, n', rfl, rfl, out⟩ := h.cases
  · unfold Setting.finish
    obtain ⟨a, k, o', e, e', wrote, -, out⟩ | ⟨f, k, o', e, e', wrote, out⟩ |
      ⟨k, k', e, e', out⟩ := (told wrote out).cases <;> simp only [e, e']
    · exact pop.bind (fun _ => .pure v) wrote trivial out
    · exact lost f wrote trivial out
    · exact .unfinished out
  · unfold Setting.finish
    obtain ⟨a, k, o', e, e', wrote, -, out⟩ | ⟨f', k, o', e, e', wrote, out⟩ |
      ⟨k, k', e, e', out⟩ := (told wrote out).cases <;> simp only [e, e']
    · exact lost f wrote trivial out
    · exact lost f wrote trivial out
    · exact .unfinished out
  · exact .unfinished out

theorem inFrame (f : Frame) {x x' : Action σ Unit}
    (h : x.Alongside s K anyLine anyLine x') :
    (env.inFrame f x).Alongside s K A anyLine (env.inFrame f x') := by
  have body : Action.Alongside s K anyLine anyLine
      (do Action.push f; env.announce; env.markHeader; x; Action.result)
      (do Action.push f; env.announce; env.markHeader; x'; Action.result) :=
    (push f).bind fun _ => (announce env).bind fun _ => (markHeader env).bind fun _ =>
      h.bind fun _ => result
  intro m o wrote _ out
  unfold Setting.inFrame
  dsimp only
  split
  · exact .failed _ wrote out
  · exact finish env (body wrote trivial out)

end

theorem inHostFrame {x x' : Action σ Value} (h : x.Alongside s K anyLine anyLine x') :
    (inHostFrame x).Alongside s K A anyLine (inHostFrame x') := by
  intro m o wrote _ out
  unfold Action.inHostFrame
  obtain ⟨v, n, o', e, e', wrote, -, out⟩ | ⟨f, n, o', e, e', wrote, out⟩ |
    ⟨n, n', e, e', out⟩ :=
    (h (m := { m with stack := m.stack.push .host }) wrote trivial out).cases <;> simp only [e, e']
  · exact .done v (m := { n with stack := n.stack.pop, jump := .none }) wrote trivial out
  · exact .failed f (m := { n with stack := n.stack.pop, jump := .none }) wrote out
  · exact .unfinished out

/-- Whatever stays on the same lines does so by the rules of running. -/
theorem steps (env : Setting σ) (same : ∀ n, K n n) (A : Nat → Prop) :
    StepRelation (Action.Alongside s K A A) env env where
  pure := .pure
  bind := .bind
  observe := .observe
  editAt := .editAt
  frameKind := .frameKind
  getPos := .getPos
  write := .write same
  reraise := .reraise
  checkDeadline := .checkDeadline env

theorem clause (env : Setting σ) (same : ∀ n, K n n) (f : Failure) (name : Option String)
    {x x' : Action σ Unit} (h : x.Alongside s K anyLine anyLine x') :
    (clause f name x).Alongside s K A anyLine (clause f name x') :=
  anywhere <| (modifyFrame _).bind fun _ => ((steps env same anyLine).bindCaught f name).bind
    fun _ => thenForget name (whileHandling f h)

end Action.Alongside

end

end Footprint
