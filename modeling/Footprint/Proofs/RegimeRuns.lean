import Footprint.Proofs.RegimeStore

set_option autoImplicit false

/-!
A regime that is kept by the steps of running is kept by whole runs. The rules of running are gone
through once, with what is said of each value that is made on the way.
-/

namespace Footprint

namespace Regime

open Footprint.Action Footprint.Setting

section

variable {σ α β : Type} {R : Regime σ} {env : Setting σ} {c : Code} {w w' : R.World}

/-- The request is one for which a value can be promised. -/
def Asks (R : Regime σ) (w : R.World) : Evaluation → Prop
  | .expr _ => True
  | .call callee args _ => R.value w callee ∧ R.values w args

/-- The code object may have this done to the target. -/
def Places (R : Regime σ) (w : R.World) (c : Code) : Placement → Prop
  | .assign target v => c.Targets target ∧ R.value w v
  | .delete target => c.Targets target

/-- The items left to an iteration are good ones. -/
def Goes (R : Regime σ) (w : R.World) : Execution → Prop
  | .forRounds _ items _ _ _ => R.items w items
  | _ => True

/-- In a frame that the code object runs in, the computation keeps to the regime. -/
abbrev Runs (R : Regime σ) (c : Code) (w : R.World) (P : R.World → α → Prop) (x : Action σ α) :
    Prop := R.Yields R.frame c w P x

/-- What answers requests keeps to the regime, also in a frame that has just begun. -/
structure Agree (R : Regime σ) (d : Calls σ) : Prop where
  value {c : Code} {w : R.World} {t : Evaluation} : R.known c → R.Asks w t →
    R.Yields R.fresh c w R.value (d.value t)
  place {c : Code} {w : R.World} {t : Placement} : R.known c → R.Places w c t →
    R.Yields R.fresh c w R.any (d.place t)
  run {c : Code} {w : R.World} {t : Execution} : R.known c → c.Allows t → R.Goes w t →
    R.Yields R.fresh c w R.any (d.run t)

/-! ### Frames -/

/-- No frame is being run but such as known code objects run in. -/
structure Stable (R : Regime σ) (w : R.World) (m : Machine σ) : Prop where
  holds : R.holds w m.store m.monitor
  returned : R.value w m.returned
  stands : ∀ f ∈ m.stack, R.Stands w f

/-- What a frame has come to when it has ended. -/
structure Closed (R : Regime σ) (w : R.World) (m m' : Machine σ) : Prop where
  holds : R.holds w m'.store m'.monitor
  returned : R.value w m'.returned
  stack : m'.stack = m.stack

/-- What a frame comes to that begins on a machine. -/
def Concludes (R : Regime σ) (w : R.World) (P : R.World → α → Prop) (m : Machine σ) :
    Ending σ α → Prop
  | .done a m' => ∃ w', R.le w w' ∧ R.Closed w' m m' ∧ P w' a
  | .failed _ m' => ∃ w', R.le w w' ∧ R.Closed w' m m'
  | .unfinished m' => ∃ w', R.le w w' ∧ R.holds w' m'.store m'.monitor

theorem Ready.stable (known : R.known c) {m : Machine σ}
    (ready : R.Ready R.frame c w m) : R.Stable w m := by
  obtain ⟨stack, f, hm, runs, frame, stands⟩ := ready.frame
  refine ⟨ready.holds, ready.returned, fun g hg => ?_⟩
  rw [hm, Array.mem_push] at hg
  rcases hg with hg | rfl
  · exact stands g hg
  · exact ⟨c, known, runs, frame⟩

theorem Concludes.comes {P : R.World → α → Prop} {m : Machine σ} {r : Ending σ α}
    (ready : R.Ready R.frame c w m) (h : R.Concludes w P m r) : R.Comes w P m r := by
  obtain ⟨stack, f, hm, -⟩ := ready.frame
  have after {u : R.World} {n : Machine σ} (closed : R.Closed u m n) : R.After u m n :=
    ⟨closed.holds, closed.returned, stack, f, f.line, f.reported, hm, closed.stack.trans hm⟩
  cases r with
  | done a n =>
    obtain ⟨u, hu, closed, ha⟩ := h
    exact ⟨u, hu, after closed, ha⟩
  | failed f n =>
    obtain ⟨u, hu, closed⟩ := h
    exact ⟨u, hu, after closed⟩
  | unfinished n => exact h

/-- However a computation ends, the conditions hold then. -/
theorem Concludes.holds {P : R.World → α → Prop} {m : Machine σ} {r : Ending σ α}
    (concludes : R.Concludes w P m r) :
    ∃ w', R.le w w' ∧ R.holds w' r.machine.store r.machine.monitor := by
  cases r with
  | done a n =>
    obtain ⟨u, hu, closed, -⟩ := concludes
    exact ⟨u, hu, closed.holds⟩
  | failed f n =>
    obtain ⟨u, hu, closed⟩ := concludes
    exact ⟨u, hu, closed.holds⟩
  | unfinished n => exact concludes

theorem Concludes.later {P : R.World → α → Prop} {m m' : Machine σ} {r : Ending σ α}
    (concludes : R.Concludes w' P m' r) (h : R.Kept env) (later : R.le w w')
    (stack : m'.stack = m.stack) : R.Concludes w P m r := by
  cases r with
  | done a n =>
    obtain ⟨u, hu, closed, ha⟩ := concludes
    exact ⟨u, h.trans later hu, ⟨closed.holds, closed.returned, closed.stack.trans stack⟩, ha⟩
  | failed f n =>
    obtain ⟨u, hu, closed⟩ := concludes
    exact ⟨u, h.trans later hu, closed.holds, closed.returned, closed.stack.trans stack⟩
  | unfinished n =>
    obtain ⟨u, hu, holds⟩ := concludes
    exact ⟨u, h.trans later hu, holds⟩

section

variable (h : R.Kept env)

include h

theorem Kept.lasts_frame : R.Lasts R.frame := fun _ _ _ _ => h.frame_mono

theorem Kept.lasts_fresh : R.Lasts R.fresh := fun _ _ _ _ => h.fresh_mono

variable {m : Machine σ} {f : Frame}

/-- The end of a frame, told and taken off the stack. -/
theorem Kept.finish {r : Ending σ Value} (comes : R.Comes w R.value (Protocol.opened env f m) r) :
    R.Concludes w R.value m (env.finish r) := by
  have closed {u : R.World} {m' : Machine σ} (after : R.After u (Protocol.opened env f m) m') :
      ∃ m'', R.Closed u m { m'' with stack := m''.stack.pop } ∧
        (env.tell .ret { m' with jump := .none } = .done () m'' ∨
          ∃ text, env.tell .ret { m' with jump := .none } =
            .failed (.listener text m'.pos) m'') := by
    obtain ⟨stack, g, line, reported, hstack, hstack'⟩ := after.frame
    obtain ⟨rfl, rfl⟩ := Array.push_eq_push.1 hstack
    have hstop : ({ m' with jump := .none } : Machine σ).stack = _ := hstack'
    refine ⟨_, ?_, env.tell_push .ret hstop⟩
    refine ⟨h.hear _ _ .ret after.holds, after.returned, ?_⟩
    dsimp only
    rw [hstack', Array.pop_push]
  unfold Setting.finish
  cases r with
  | done v m' =>
    obtain ⟨u, hu, after, hv⟩ := comes
    obtain ⟨m'', back, same | ⟨text, same⟩⟩ := closed after
    · simp only [same]
      exact ⟨u, hu, back, hv⟩
    · simp only [same]
      exact ⟨u, hu, back⟩
  | failed e m' =>
    obtain ⟨u, hu, after⟩ := comes
    obtain ⟨m'', back, same | ⟨text, same⟩⟩ := closed after
    · simp only [same]
      exact ⟨u, hu, back⟩
    · simp only [same]
      exact ⟨u, hu, back⟩
  | unfinished m' => exact comes

theorem Kept.markHeader : R.Yields R.fresh c w R.any env.markHeader := by
  intro w' later m ready
  obtain ⟨stack, f, hm, -⟩ := ready.frame
  have top : m.stack.back?.getD .top = f := by rw [hm, Array.back?_push, Option.getD_some]
  unfold Setting.markHeader
  simp only [bind_apply, Action.frame, top]
  cases f.kind with
  | classBody scope => exact Yields.markLine h h.lasts_fresh _ later ready
  | top | function => exact ⟨w', h.refl w', ready.same rfl rfl rfl rfl, trivial⟩

/-- A frame of a known code object. -/
theorem Kept.inFrame_concludes (begins : c.Begins f) (stable : R.Stable w m)
    (fresh : R.fresh w c f.kind) {x : Action σ Unit} (hx : R.Yields R.fresh c w R.any x) :
    R.Concludes w R.value m (env.inFrame f x m) := by
  unfold Setting.inFrame
  split
  · exact ⟨w, h.refl w, stable.holds, stable.returned, rfl⟩
  · have heard := h.hear f (m.stack.size + 1) .call stable.holds
    have ready : R.Ready R.fresh c w (Protocol.opened env f m) :=
      ⟨heard, stable.returned, m.stack, _, rfl, begins.runs, fresh, stable.stands⟩
    apply h.finish (f := f)
    rw [bind_apply]
    simp only [push]
    rw [bind_apply]
    rcases Protocol.announce_push begins.traced with same | ⟨e, same⟩ <;> rw [same]
    · have body := (h.markHeader (c := c) (w := w)).andThen h h.lasts_fresh fun u hu _ =>
        (hx.later h hu).andThen h h.lasts_fresh fun _ _ _ => Yields.result h
      exact body (h.refl w) ready
    · exact ⟨w, h.refl w, ready.same rfl rfl rfl rfl⟩

theorem Kept.inFrame {d : Code} (known : R.known c) (begins : d.Begins f)
    (fresh : R.fresh w d f.kind) {x : Action σ Unit} (hx : R.Yields R.fresh d w R.any x) :
    R.Runs c w R.value (env.inFrame f x) := by
  intro w' later m ready
  have concludes := h.inFrame_concludes begins (ready.stable known)
    (h.fresh_mono later fresh) (hx.later h later)
  exact concludes.comes ready

end

/-! ### Built-in functions -/

section

variable (h : R.Kept env)

include h

theorem Kept.fold {P : R.World → α → Prop} {step : α → Value → Action σ α}
    (hstep : ∀ w', R.le w w' → ∀ a v, P w' a → R.value w' v → R.Runs c w' P (step a v))
    (mono : ∀ ⦃w w' a⦄, R.le w w' → P w a → P w' a) {a : α} (ha : P w a) {i : Items}
    (hi : R.items w i) : R.Runs c w P (i.fold step a) := by
  unfold Items.fold
  generalize i.length = n
  induction n generalizing a i w with
  | zero => exact .pure h fun _ later => mono later ha
  | succ n ih =>
    unfold Items.foldUpTo
    split
    · next v rest hv =>
      obtain ⟨hv, rest⟩ := h.next hi hv
      refine (hstep w (h.refl w) a v ha hv).bind h h.lasts_frame fun u later b hb => ?_
      exact ih (fun u' later' => hstep u' (h.trans later later')) hb (h.items_mono later rest)
    · exact .pure h fun _ later => mono later ha

theorem Kept.goThrough {P : R.World → α → Prop} {step : α → Value → Action σ α}
    (hstep : ∀ w', R.le w w' → ∀ a v, P w' a → R.value w' v → R.Runs c w' P (step a v))
    (mono : ∀ ⦃w w' a⦄, R.le w w' → P w a → P w' a) {a : α} (ha : P w a) {i : Items}
    (hi : R.items w i) : R.Runs c w P (env.goThrough step a i) := by
  unfold Setting.goThrough
  refine (h.fold (P := fun w acc => P w acc.1) (fun u later acc v hacc hv => ?_)
    (fun _ _ _ => @mono _ _ _) ha hi).bind h h.lasts_frame fun u _ acc hacc =>
      .pure h fun _ later => mono later hacc
  have counted {u : R.World} (later : R.le w u) (hacc : P u acc.1) (hv : R.value u v) :
      R.Runs c u (fun w acc => P w acc.1) (do return (← step acc.1 v, acc.2 + 1)) :=
    (hstep u later acc.1 v hacc hv).bind h h.lasts_frame fun _ _ b hb =>
      .pure h fun _ further => mono further hb
  dsimp only
  split
  · refine (Yields.checkDeadline h).andThen h h.lasts_frame fun u' further _ => ?_
    exact counted (h.trans later further) (mono further hacc) (h.value_mono further hv)
  · exact counted later hacc hv

theorem Kept.collect {v : Value} (p : Position) (hv : R.value w v) :
    R.Runs c w (fun w vs => R.values w vs.toList) (env.collect p v) := by
  refine (Yields.lift h (P := R.any) fun _ _ _ _ => trivial).andThen h h.lasts_frame
    fun u later _ => ?_
  have iterated := Yields.readAt h (F := R.frame) (c := c) (w := u) (P := R.items) (p := p)
    (f := (·.iterate v)) fun u' further s μ i holds hi =>
      h.iterate holds (h.value_mono further (h.value_mono later hv)) hi
  refine iterated.bind h h.lasts_frame fun u' _ i hi => ?_
  apply h.goThrough
  · intro u'' _ vs v hvs hv
    refine .pure h fun u''' further => ?_
    rw [Array.toList_push]
    exact fun x hx => (List.mem_append.1 hx).elim (h.values_mono further hvs x) fun one =>
      (List.mem_singleton.1 one) ▸ h.value_mono further hv
  · exact fun _ _ _ later hvs => h.values_mono later hvs
  · exact fun x hx => absurd hx List.not_mem_nil
  · exact hi

theorem Kept.print (args : List Value) : R.Runs c w R.value (print args : Action σ Value) :=
  (Yields.read h (P := R.any) fun _ _ _ _ _ => trivial).andThen h h.lasts_frame fun _ _ _ =>
    (Yields.await h _).andThen h h.lasts_frame fun _ _ _ =>
      (Yields.write h _).andThen h h.lasts_frame fun _ _ _ =>
        .pure h fun u _ => h.plain u rfl

theorem Kept.candidates {name : String} {args : List Value} {p : Position}
    (hargs : R.values w args) : R.Runs c w R.items (candidates name args p : Action σ Items) := by
  unfold Setting.candidates
  split
  · exact .raiseAt h _ p
  · exact .readAt h fun u later s μ i holds hi =>
      h.iterate holds (h.value_mono later (hargs _ List.mem_cons_self)) hi
  · exact .pure h fun u later => h.values_mono later hargs

theorem Kept.extreme {name : String} {op : CompareOp} {args : List Value} {p : Position}
    (hargs : R.values w args) : R.Runs c w R.value (env.extreme name op args p) := by
  refine (h.candidates hargs).bind h h.lasts_frame fun u _ i hi => ?_
  split
  · exact .raiseAt h _ p
  · next best others hnext =>
    obtain ⟨hbest, hothers⟩ := h.next hi hnext
    refine h.goThrough (P := R.value) (fun u' _ best v hbest hv => ?_)
      (fun _ _ _ => h.value_mono) hbest hothers
    refine (Yields.attemptAt h p _).andThen h h.lasts_frame fun u'' later better => ?_
    refine .pure h fun u''' further => ?_
    split
    · exact h.value_mono (h.trans later further) hv
    · exact h.value_mono (h.trans later further) hbest

theorem Kept.sum {args : List Value} {p : Position} (hargs : R.values w args) :
    R.Runs c w R.value (env.sum args p) := by
  have given := Yields.lift h (F := R.frame) (c := c) (w := w) (p := p) (x := summands args)
    (P := fun w operands => R.value w operands.1 ∧ R.value w operands.2)
    fun u later operands ho => by
      unfold summands at ho
      split at ho
      · cases ho
        exact ⟨h.value_mono later (hargs _ List.mem_cons_self), h.plain u rfl⟩
      · cases ho
        exact ⟨h.value_mono later (hargs _ List.mem_cons_self),
          h.value_mono later (hargs _ (List.mem_cons_of_mem _ List.mem_cons_self))⟩
      · cases ho
  refine given.bind h h.lasts_frame fun u _ operands ⟨first, start⟩ => ?_
  have iterated := Yields.readAt h (F := R.frame) (c := c) (w := u) (P := R.items) (p := p)
    (f := (·.iterate operands.1)) fun u' further s μ i holds hi =>
      h.iterate holds (h.value_mono further first) hi
  refine iterated.bind h h.lasts_frame fun u' later i hi => ?_
  refine h.goThrough (P := R.value) (fun u'' _ total v htotal hv => ?_) (fun _ _ _ => h.value_mono)
    (h.value_mono later start) hi
  exact .editAt h fun u''' further s μ e holds he =>
    h.binary holds (h.value_mono further htotal) (h.value_mono further hv) he

theorem Kept.plainly_lift {p : Position} {x : Except Fault Value}
    (plain : ∀ v, x = .ok v → v.isPlain = true) : R.Runs c w R.value (lift p x) :=
  .lift h fun u _ v hv => h.plain u (plain v hv)

theorem Kept.atMostOne {p : Position} {name : String} {args : List Value}
    (hargs : R.values w args) :
    R.Runs c w (fun w given => ∀ v ∈ given, R.value w v) (lift p (atMostOne name args)) := by
  refine .lift h fun u later given hg v hv => ?_
  unfold Footprint.atMostOne at hg
  split at hg
  · cases hg
    cases hv
  · cases hg
    cases hv
    exact h.value_mono later (hargs _ List.mem_cons_self)
  · cases hg

theorem Kept.callBuiltin (b : Builtin) {args : List Value} (p : Position)
    (hargs : R.values w args) : R.Runs c w R.value (env.callBuiltin b args p) := by
  have lasts := h.lasts_frame
  cases b <;> simp only [Setting.callBuiltin]
  case print => exact h.print args
  case range => exact h.plainly_lift fun _ => isPlain_of_makeRange
  case abs =>
    refine h.plainly_lift fun v hv => ?_
    obtain ⟨a, -, hv⟩ := ok_of_bind hv
    exact isPlain_of_magnitude hv
  case len =>
    exact (Yields.lift h (P := R.any) fun _ _ _ _ => trivial).andThen h lasts fun _ _ _ =>
      (Yields.readAt h (P := R.any) fun _ _ _ _ _ _ _ => trivial).andThen h lasts fun _ _ _ =>
        .pure h fun u _ => h.plain u rfl
  case min | max => exact h.extreme hargs
  case sum => exact h.sum hargs
  all_goals
    refine (h.atMostOne hargs).bind h lasts fun u later given hg => ?_
    cases given with
    | none =>
      first
      | exact .pure h fun u _ => h.plain u rfl
      | exact .edit h fun u _ s μ holds => h.newList holds fun v hv => absurd hv List.not_mem_nil
    | some v => ?_
  case int => exact h.plainly_lift fun _ => isPlain_of_toInteger
  case float => exact h.plainly_lift fun _ => isPlain_of_toFloat
  case str =>
    exact (Yields.read h (P := R.any) fun _ _ _ _ _ => trivial).andThen h lasts fun _ _ _ =>
      (Yields.await h _).andThen h lasts fun _ _ _ => .pure h fun u _ => h.plain u rfl
  case bool =>
    exact (Yields.read h (P := R.any) fun _ _ _ _ _ => trivial).andThen h lasts fun _ _ _ =>
      .pure h fun u _ => h.plain u rfl
  case list =>
    refine (h.collect p (hg v rfl)).bind h lasts fun u' _ vs hvs => ?_
    exact .edit h fun u'' further s μ holds => h.newList holds (h.values_mono further hvs)

theorem Kept.augmented {op : BinaryOp} {current operand : Value} {p : Position}
    (hc : R.value w current) (ho : R.value w operand) :
    R.Runs c w R.value (env.augmented op current operand p) := by
  unfold Setting.augmented
  split
  · refine (h.collect p ho).bind h h.lasts_frame fun u later vs hvs => ?_
    have extended : R.Runs c u R.any (Action.editAt p (·.extend _ vs.toList)) :=
      .editAt h fun u' further s μ e holds he =>
        h.extend holds (h.value_mono further (h.value_mono later hc)) (h.values_mono further hvs) he
    refine extended.andThen h h.lasts_frame fun u' further _ => ?_
    exact .pure h fun u'' last => h.value_mono last (h.value_mono further (h.value_mono later hc))
  · exact .editAt h fun u later s μ e holds he =>
      h.binary holds (h.value_mono later hc) (h.value_mono later ho) he

theorem Kept.instantiate (kind : String) (args : List Value) :
    R.Runs c w R.value (instantiate kind args : Action σ Value) :=
  (Yields.read h (P := R.any) fun _ _ _ _ _ => trivial).andThen h h.lasts_frame fun _ _ _ =>
    (Yields.await h _).andThen h h.lasts_frame fun _ _ _ =>
      .edit h fun _ _ _ _ holds => h.newException _ _ holds

/-! ### Expressions -/

section

variable {d : Calls σ} (agree : R.Agree d) (known : R.known c)

include agree known

omit h in
theorem Agree.evaluates (w : R.World) (e : Expr) (h : R.Kept env) :
    R.Runs c w R.value (d.value (.expr e)) :=
  (agree.value (t := .expr e) known trivial).weaken h.fresh_of_frame

theorem Kept.calls {callee : Value} {args : List Value} (p : Position) (hc : R.value w callee)
    (hargs : R.values w args) : R.Runs c w R.value (d.value (.call callee args p)) :=
  (agree.value (t := .call callee args p) known ⟨hc, hargs⟩).weaken h.fresh_of_frame

theorem Kept.evalAll (es : List Expr) : R.Runs c w R.values (evalAll d.value es) := by
  induction es generalizing w with
  | nil => exact .pure h fun _ _ v hv => absurd hv List.not_mem_nil
  | cons e es ih =>
    refine (agree.evaluates known w e h).bind h h.lasts_frame fun u _ v hv => ?_
    refine ih.bind h h.lasts_frame fun u' later vs hvs => ?_
    exact .pure h fun u'' further => List.forall_mem_cons.2
      ⟨h.value_mono (h.trans later further) hv, h.values_mono further hvs⟩

theorem Kept.evalLogic (op : BoolOp) (es : List Expr) :
    R.Runs c w R.value (evalLogic d.value op es) := by
  induction es generalizing w with
  | nil => exact .pure h fun u _ => h.plain u rfl
  | cons e es ih =>
    cases es with
    | nil => exact agree.evaluates known w e h
    | cons e' es =>
      refine (agree.evaluates known w e h).bind h h.lasts_frame fun u _ v hv => ?_
      refine (Yields.read h (P := R.any) fun _ _ _ _ _ => trivial).andThen h h.lasts_frame
        fun u' later truth => ?_
      split
      · exact .pure h fun u'' further => h.value_mono (h.trans later further) hv
      · exact ih

theorem Kept.evalLinks (p : Position) (a : Value) (links : List (CompareOp × Expr)) :
    R.Runs c w R.value (evalLinks d.value p a links) := by
  induction links generalizing a w with
  | nil => exact .pure h fun u _ => h.plain u rfl
  | cons link links ih =>
    refine (agree.evaluates known w link.2 h).bind h h.lasts_frame fun u _ b _ => ?_
    refine (Yields.attemptAt h p _).andThen h h.lasts_frame fun u' _ holds => ?_
    split
    · exact ih b
    · exact .pure h fun u _ => h.plain u rfl

theorem Kept.evalExpr (e : Expr) : R.Runs c w R.value (evalExpr d e) := by
  have lasts := h.lasts_frame
  have value (w : R.World) (e : Expr) := agree.evaluates known w e h
  cases e with
  | const k p => exact .pure h fun u _ => h.plain u k.isPlain_value
  | name id p =>
    exact (Yields.frameKind h).andThen h lasts fun _ _ k =>
      .readAt h fun _ _ _ _ _ holds hv => h.resolve holds hv
  | list items p =>
    exact (h.evalAll agree known items).bind h lasts fun u _ vs hvs =>
      .edit h fun u' later s μ holds => h.newList holds (h.values_mono later hvs)
  | tuple items p =>
    exact (h.evalAll agree known items).bind h lasts fun u _ vs hvs =>
      .edit h fun u' later s μ holds => h.newTuple holds (h.values_mono later hvs)
  | binary op left right p =>
    refine (value w left).bind h lasts fun u _ a ha => ?_
    refine (value u right).bind h lasts fun u' later b hb => ?_
    exact .editAt h fun u'' further s μ e holds he =>
      h.binary holds (h.value_mono (h.trans later further) ha) (h.value_mono further hb) he
  | unary op operand p =>
    exact (value w operand).andThen h lasts fun u _ a =>
      .readAt h fun u' _ s μ v _ hv => h.plain u' (Store.isPlain_of_unary hv)
  | logic op operands p => exact h.evalLogic agree known op operands
  | compare left links p =>
    exact (value w left).andThen h lasts fun u _ a => h.evalLinks agree known p a links
  | call callee args p =>
    refine (value w callee).bind h lasts fun u _ f hf => ?_
    refine (h.evalAll agree known args).bind h lasts fun u' later vs hvs => ?_
    exact h.calls agree known p (h.value_mono later hf) hvs
  | member object attr p =>
    exact (value w object).bind h lasts fun u _ o ho =>
      .readAt h fun u' later s μ v holds hv => h.getAttribute holds (h.value_mono later ho) hv
  | subscript object index p =>
    refine (value w object).bind h lasts fun u _ o ho => ?_
    refine (value u index).andThen h lasts fun u' later i => ?_
    exact .readAt h fun u'' further s μ v holds hv =>
      h.subscript holds (h.value_mono (h.trans later further) ho) hv
  | choice test body orelse p =>
    refine (value w test).andThen h lasts fun u _ t => ?_
    refine (Yields.read h (P := R.any) fun _ _ _ _ _ => trivial).andThen h lasts fun u' _ truth => ?_
    split
    · exact value u' body
    · exact value u' orelse

/-! ### Calls -/

theorem Kept.callFunction (r : FunctionRef) {args : List Value} (p : Position)
    (hargs : R.values w args) :
    R.Runs c w R.value (env.callFunction r args p fun f => d.block f.runBody) := by
  have lasts := h.lasts_frame
  unfold Setting.callFunction
  refine (Yields.read h (P := fun w found => ∀ f ∈ found, R.closure w f)
    fun u _ s μ holds f hf => h.found holds hf).bind h lasts fun u later found hfound => ?_
  cases found with
  | none => exact .raiseAt h _ p
  | some f =>
    have closure := hfound f rfl
    have inner := h.known_closure closure
    refine (Yields.lift h (P := R.any) fun _ _ _ _ => trivial).andThen h lasts fun u' later' _ => ?_
    have made : R.Runs c u' (fun w r => R.fresh w (.function f.function) (.function f.function r))
        (edit (Footprint.callScope f.scope (boundArguments f.function args f.defaults))) :=
      .edit h fun u'' further s μ holds => h.callScope holds
        (h.closure_mono (h.trans later' further) closure)
        (h.values_mono (h.trans later (h.trans later' further)) hargs)
    refine made.bind h lasts fun u'' _ locals fresh => ?_
    apply Yields.backAt h lasts p
    apply h.inFrame known (.function f.function locals) fresh
    exact agree.run (t := .block f.function.runBody) inner (Code.allows_body _) trivial

theorem Kept.callValue {callee : Value} {args : List Value} (p : Position)
    (hc : R.value w callee) (hargs : R.values w args) :
    R.Runs c w R.value (env.callValue d callee args p) := by
  unfold Setting.callValue
  split
  · exact h.callFunction agree known _ p hargs
  · exact h.callBuiltin _ p hargs
  · exact .editAt h fun u later s μ e holds he => h.callMethod holds
      (h.method.1 (h.value_mono later hc)) (h.values_mono later hargs) he
  · exact h.instantiate _ args
  · exact h.instantiate _ args
  · exact .raiseAt h _ p
  · exact .raiseAt h _ p

theorem Kept.evaluation {t : Evaluation} (asks : R.Asks w t) :
    R.Runs c w R.value (env.evaluation d t) := by
  cases t with
  | expr e => exact h.evalExpr agree known e
  | call callee args p => exact h.callValue agree known p asks.1 asks.2

/-! ### Targets -/

omit agree in
theorem Kept.store {name : String} {v : Value} (binds : c.Binds name) (hv : R.value w v) :
    R.Runs c w R.any (store name v) := by
  refine (Yields.frameKind h).bind h h.lasts_frame fun u later k frame => ?_
  refine (Yields.getPos h).andThen h h.lasts_frame fun u' later' p => ?_
  refine .editAt h fun u'' further s μ e holds he => ?_
  unfold Store.assign at he
  split at he
  · next r hr =>
    cases he
    obtain ⟨x, hx, after⟩ := h.assign known (h.frame_mono (h.trans later' further) frame) binds
      holds (h.value_mono (h.trans later (h.trans later' further)) hv) hr
    exact ⟨x, hx, after, trivial⟩
  · cases he

omit agree in
theorem Kept.unassigned {s : Store} {μ : σ} {k : FrameKind} {name : String} {e : Edit Unit}
    (frame : R.frame w c k) (binds : c.Binds name) (holds : R.holds w s μ)
    (he : s.unassign k name = .ok e) : R.Grants w s μ e R.any := by
  unfold Store.unassign at he
  split at he
  · next r hr =>
    split at he
    · cases he
      obtain ⟨x, hx, after⟩ := h.unassign known frame binds holds hr
      exact ⟨x, hx, after, trivial⟩
    · cases he
  · cases he

omit agree in
theorem Kept.unbind {name : String} (binds : c.Binds name) : R.Runs c w R.any (unbind name) := by
  refine (Yields.frameKind h).bind h h.lasts_frame fun u _ k frame => ?_
  refine (Yields.getPos h).andThen h h.lasts_frame fun u' later p => ?_
  exact .editAt h fun u'' further s μ e holds he =>
    h.unassigned known (h.frame_mono (h.trans later further) frame) binds holds he

theorem Kept.places {t : Placement} (h' : R.Places w c t) : R.Runs c w R.any (d.place t) :=
  (agree.place known h').weaken h.fresh_of_frame

theorem Kept.assignAll {targets : List Expr} {vs : List Value}
    (owned : ∀ t ∈ targets, c.Targets t) (hvs : R.values w vs) :
    R.Runs c w R.any (assignAll d.place targets vs) := by
  induction targets generalizing vs w with
  | nil => exact .pure h fun _ _ => trivial
  | cons t ts ih =>
    cases vs with
    | nil => exact .pure h fun _ _ => trivial
    | cons v vs =>
      obtain ⟨hv, hvs⟩ := List.forall_mem_cons.1 hvs
      obtain ⟨first, others⟩ := List.forall_mem_cons.1 owned
      refine (h.places agree known (t := .assign t v) ⟨first, hv⟩).andThen h h.lasts_frame
        fun u later _ => ?_
      exact ih others (h.values_mono later hvs)

theorem Kept.assignEach {targets : List Expr} {v : Value}
    (owned : ∀ t ∈ targets, c.Targets t) (hv : R.value w v) :
    R.Runs c w R.any (assignEach d.place v targets) := by
  induction targets generalizing w with
  | nil => exact .pure h fun _ _ => trivial
  | cons t ts ih =>
    obtain ⟨first, others⟩ := List.forall_mem_cons.1 owned
    refine (h.places agree known (t := .assign t v) ⟨first, hv⟩).andThen h h.lasts_frame
      fun u later _ => ?_
    exact ih others (h.value_mono later hv)

theorem Kept.deleteAll {targets : List Expr} (owned : ∀ t ∈ targets, c.Targets t) :
    R.Runs c w R.any (deleteAll d.place targets) := by
  induction targets generalizing w with
  | nil => exact .pure h fun _ _ => trivial
  | cons t ts ih =>
    obtain ⟨first, others⟩ := List.forall_mem_cons.1 owned
    refine (h.places agree known (t := .delete t) first).andThen h h.lasts_frame fun u later _ => ?_
    exact ih others

theorem Kept.unpack {targets : List Expr} {v : Value} (p : Position)
    (owned : ∀ t ∈ targets, c.Targets t) (hv : R.value w v) :
    R.Runs c w R.any (do
      let items ← readAt p (·.iterate v)
      let vs ← lift p (Store.unpacked targets.length items)
      Setting.assignAll d.place targets vs) := by
  have iterated : R.Runs c w R.items (readAt p (·.iterate v)) :=
    .readAt h fun u later s μ i holds hi => h.iterate holds (h.value_mono later hv) hi
  refine iterated.bind h h.lasts_frame fun u _ i hi => ?_
  have counted : R.Runs c u R.values (lift p (Store.unpacked targets.length i)) :=
    .lift h fun u' later vs hvs => h.unpacked (h.items_mono later hi) hvs
  exact counted.bind h h.lasts_frame fun u' _ vs hvs => h.assignAll agree known owned hvs

omit agree known in
theorem Kept.setItemAt {p : Position} {o i v : Value} (ho : R.value w o) (hv : R.value w v) :
    R.Runs c w R.any (editAt p (·.setItem o i v)) :=
  .editAt h fun _ later _ _ _ holds he =>
    h.setItem holds (h.value_mono later ho) (h.value_mono later hv) he

omit agree known in
theorem Kept.setAttrAt {p : Position} {o v : Value} {attr : String} (ho : R.value w o)
    (hv : R.value w v) : R.Runs c w R.any (editAt p fun _ => Store.setAttribute o attr v) :=
  .editAt h fun _ later _ _ _ holds he =>
    h.setAttr holds (h.value_mono later ho) (h.value_mono later hv) he

theorem Kept.placement {t : Placement} (places : R.Places w c t) :
    R.Runs c w R.any (placement d t) := by
  have lasts := h.lasts_frame
  have value (w : R.World) (e : Expr) := agree.evaluates known w e h
  cases t with
  | assign target v =>
    obtain ⟨targets, hv⟩ := places
    simp only [Setting.placement]
    unfold Setting.assign
    split
    · exact h.store known (targets.binds _ List.mem_cons_self) hv
    · exact h.unpack agree known _ (fun t ht => targets.tuple ht) hv
    · exact h.unpack agree known _ (fun t ht => targets.list ht) hv
    · refine (value w _).bind h lasts fun u later o ho => ?_
      refine (value u _).andThen h lasts fun u' further i => ?_
      exact h.setItemAt (h.value_mono further ho) (h.value_mono (h.trans later further) hv)
    · exact (value w _).bind h lasts fun u later o ho =>
        h.setAttrAt ho (h.value_mono later hv)
    · exact .raiseAt h _ _
  | delete target =>
    simp only [Setting.placement]
    unfold Setting.delete
    split
    · exact h.unbind known (Code.Targets.binds places _ List.mem_cons_self)
    · exact h.deleteAll agree known fun t ht => .tuple places ht
    · exact h.deleteAll agree known fun t ht => .list places ht
    · refine (value w _).bind h lasts fun u _ o ho => ?_
      refine (value u _).andThen h lasts fun u' later i => ?_
      exact .editAt h fun u'' further s μ e holds he =>
        h.deleteItem holds (h.value_mono (h.trans later further) ho) he
    · exact (value w _).bind h lasts fun u _ o ho =>
        .editAt h fun u' later s μ e holds he => h.deleteAttr holds (h.value_mono later ho) he
    · exact .raiseAt h _ _

theorem Kept.augmentedName (id : String) (p : Position) (op : BinaryOp) (value : Expr) :
    R.Runs c w R.value (env.augmentedName d id p op value) := by
  have lasts := h.lasts_frame
  refine (Yields.frameKind h).andThen h lasts fun u _ k => ?_
  refine (Yields.readAt h (P := R.value) fun _ _ _ _ _ holds hv => h.resolve holds hv).bind h
    lasts fun u _ current hc => ?_
  refine (agree.evaluates known u value h).bind h lasts fun u' later operand ho => ?_
  exact h.augmented (h.value_mono later hc) ho

theorem Kept.augment {target : Expr} (op : BinaryOp) (value : Expr) (q : Position)
    (owned : c.Targets target) : R.Runs c w R.any (env.augment d target op value q) := by
  have lasts := h.lasts_frame
  have evaluates (w : R.World) (e : Expr) := agree.evaluates known w e h
  unfold Setting.augment
  split
  · next id p =>
    have named : R.Runs c w R.any (do Action.store id (← env.augmentedName d id p op value)) :=
      (h.augmentedName agree known id p op value).bind h lasts fun _ _ v hv =>
        h.store known (owned.binds _ List.mem_cons_self) hv
    rw [← augment_name_eq _ _ id p q] at named
    exact named
  · refine (evaluates w _).bind h lasts fun u _ o ho => ?_
    refine (evaluates u _).andThen h lasts fun u' l₁ i => ?_
    refine (Yields.readAt h (P := R.value) fun _ later _ _ _ holds hv =>
      h.subscript holds (h.value_mono (h.trans l₁ later) ho) hv).bind h lasts
      fun x l₂ current hc => ?_
    refine (evaluates x value).bind h lasts fun y l₃ operand hoperand => ?_
    refine (h.augmented (h.value_mono l₃ hc) hoperand).bind h lasts fun z l₄ v hv => ?_
    exact h.setItemAt (h.value_mono (h.trans l₁ (h.trans l₂ (h.trans l₃ l₄))) ho) hv
  · refine (evaluates w _).bind h lasts fun u _ o ho => ?_
    refine (Yields.readAt h (P := R.value) fun _ later _ _ _ holds hv =>
      h.getAttribute holds (h.value_mono later ho) hv).bind h lasts fun x l₂ current hc => ?_
    refine (evaluates x value).bind h lasts fun y l₃ operand hoperand => ?_
    refine (h.augmented (h.value_mono l₃ hc) hoperand).bind h lasts fun z l₄ v hv => ?_
    exact h.setAttrAt (h.value_mono (h.trans l₂ (h.trans l₃ l₄)) ho) hv
  · exact .raiseAt h _ q

/-! ### Statements -/

theorem Kept.decorate (p : Position) {ds : List Value} {v : Value} (hds : R.values w ds)
    (hv : R.value w v) : R.Runs c w R.value (decorate d.value p ds v) := by
  induction ds generalizing v w with
  | nil => exact .pure h fun _ later => h.value_mono later hv
  | cons f ds ih =>
    obtain ⟨hf, hds⟩ := List.forall_mem_cons.1 hds
    have alone : R.values w [v] := List.forall_mem_singleton.2 hv
    exact (h.calls agree known p hf alone).bind h h.lasts_frame fun u later x hx =>
      ih (h.values_mono later hds) hx

theorem Kept.makeFunction {head : FunctionHead} {body : List Stmt}
    (owned : c.Owns (.function head body)) : R.Runs c w R.value (makeFunction d head body) := by
  have lasts := h.lasts_frame
  refine (h.evalAll agree known _).bind h lasts fun u₁ _ decorators hdecorators => ?_
  refine (h.evalAll agree known _).bind h lasts fun u₂ l₂ defaults hdefaults => ?_
  refine (Yields.frameKind h).bind h lasts fun u₃ l₃ k frame => ?_
  refine (Yields.read h (P := fun w r => R.scope w c r) fun u later s μ holds =>
    h.definitionScope known (h.frame_mono later frame) holds).bind h lasts fun u₄ l₄ scope hr => ?_
  have made : R.Runs c u₄ R.value (edit (Store.newFunction ⟨⟨head, body⟩, defaults, scope⟩)) :=
    .edit h fun u later s μ holds => h.newFunction holds <| h.defined known owned
      (h.scope_mono later hr) (h.values_mono (h.trans l₃ (h.trans l₄ later)) hdefaults)
  refine made.bind h lasts fun u₅ l₅ v hv => ?_
  have decorators' : R.values u₅ decorators.reverse := fun x hx =>
    h.value_mono (h.trans l₂ (h.trans l₃ (h.trans l₄ l₅))) (hdecorators x (List.mem_reverse.1 hx))
  exact h.decorate agree known _ decorators' hv

theorem Kept.defineFunction {head : FunctionHead} {body : List Stmt}
    (owned : c.Owns (.function head body)) : R.Runs c w R.any (defineFunction d head body) := by
  rw [defineFunction_eq]
  exact (h.makeFunction agree known owned).bind h h.lasts_frame fun _ _ v hv =>
    h.store known ⟨_, owned, List.mem_cons_self⟩ hv

theorem Kept.makeClass {head : ClassHead} {body : List Stmt}
    (owned : c.Owns (.classDef head body)) :
    R.Runs c w R.value (makeClass d env.inFrame head body) := by
  have lasts := h.lasts_frame
  have inner : R.known (.classBody head body) := h.known_of_defines known (.classBody owned)
  refine (h.evalAll agree known _).bind h lasts fun u₁ _ decorators hdecorators => ?_
  refine (h.evalAll agree known _).andThen h lasts fun u₂ l₂ bases => ?_
  refine (Yields.frameKind h).bind h lasts fun u₃ l₃ k frame => ?_
  refine (Yields.read h (P := fun w r => R.scope w c r) fun u later s μ holds =>
    h.definitionScope known (h.frame_mono later frame) holds).bind h lasts fun u₄ l₄ scope hr => ?_
  have made : R.Runs c u₄ (fun w q => R.fresh w (.classBody head body) (.classBody q) ∧
      ∀ b, R.value w (.classObject head.name q b)) (edit (Store.newScope scope)) :=
    .edit h fun u later s μ holds => h.classScope known owned (h.scope_mono later hr) holds
  refine made.bind h lasts fun u₅ l₅ q ⟨fresh, value⟩ => ?_
  have ran : R.Runs c u₅ R.any
      (Functor.discard (env.inFrame (.ofClass head q) (d.block body))) :=
    (h.inFrame known (.classBody head body q) fresh <| agree.run (t := .block body) inner
      (Code.allows_body (.classBody head body)) trivial).discard h lasts
  refine ran.andThen h lasts fun u₆ l₆ _ => ?_
  refine (Yields.setPos h _).andThen h lasts fun u₇ l₇ _ => ?_
  have decorators' : R.values u₇ decorators.reverse := fun x hx => h.value_mono
    (h.trans l₂ (h.trans l₃ (h.trans l₄ (h.trans l₅ (h.trans l₆ l₇)))))
    (hdecorators x (List.mem_reverse.1 hx))
  exact h.decorate agree known _ decorators' (h.value_mono (h.trans l₆ l₇) (value _))

theorem Kept.defineClass {head : ClassHead} {body : List Stmt}
    (owned : c.Owns (.classDef head body)) : R.Runs c w R.any (env.defineClass d head body) := by
  rw [defineClass_eq]
  exact (h.makeClass agree known owned).bind h h.lasts_frame fun _ _ v hv =>
    h.store known ⟨_, owned, List.mem_cons_self⟩ hv

theorem Kept.raised {v : Value} (p : Position) (hv : R.value w v) :
    R.Runs c w R.value (raised d v p) := by
  have none : R.values w [] := fun x hx => absurd hx List.not_mem_nil
  unfold Setting.raised
  split
  · exact h.calls agree known p hv none
  · exact h.calls agree known p hv none
  · exact .pure h fun _ later => h.value_mono later hv

theorem Kept.raise (exc : Option Expr) (p : Position) : R.Runs c w R.any (raise d exc p) := by
  have lasts := h.lasts_frame
  cases exc with
  | none => exact .reraise h p
  | some e =>
    refine (agree.evaluates known w e h).bind h lasts fun u _ v hv => ?_
    refine (h.raised agree known p hv).andThen h lasts fun u' _ made => ?_
    split
    · exact .fail h _
    · exact .raiseAt h _ p

theorem Kept.assert (test : Expr) (message : Option Expr) (p : Position) :
    R.Runs c w R.any (assert d test message p) := by
  have lasts := h.lasts_frame
  refine (agree.evaluates known w test h).andThen h lasts fun u _ _ => ?_
  refine (Yields.read h (P := R.any) fun _ _ _ _ _ => trivial).andThen h lasts fun u' _ truth => ?_
  split
  · exact .pure h fun _ _ => trivial
  · cases message with
    | none => exact .raiseAt h _ p
    | some e =>
      exact (agree.evaluates known u' e h).andThen h lasts fun _ _ _ =>
        (Yields.read h (P := R.any) fun _ _ _ _ _ => trivial).andThen h lasts fun _ _ _ =>
          (Yields.await h _).andThen h lasts fun _ _ _ => .raiseAt h _ p

theorem Kept.context (items : List WithItem) : R.Runs c w R.value (context d items) := by
  cases items with
  | nil => exact .pure h fun u _ => h.plain u rfl
  | cons i items => exact agree.evaluates known w _ h

theorem Kept.isCaught (f : Failure) (hd : Handler) :
    R.Runs c w R.any (isCaught d.value f hd) := by
  unfold Setting.isCaught
  split
  · exact .pure h fun _ _ => trivial
  · exact (agree.evaluates known w _ h).andThen h h.lasts_frame fun _ _ _ =>
      .lift h fun _ _ _ _ => trivial

theorem Kept.executes {t : Execution} (allowed : c.Allows t) (goes : R.Goes w t) :
    R.Runs c w R.any (d.run t) := (agree.run known allowed goes).weaken h.fresh_of_frame

theorem Kept.block {s : Stmt} (owned : c.Owns s) {b : List Stmt} (hb : b ∈ s.blocks) :
    R.Runs c w R.any (d.block b) :=
  h.executes agree known (t := .block b) (owned.of_block hb) trivial

theorem Kept.handle (f : Failure) {handlers : List Handler}
    (owned : ∀ hd ∈ handlers, c.OwnsClause hd) :
    R.Runs c w R.any (env.handle d.value d.run f handlers) := by
  have lasts := h.lasts_frame
  induction handlers generalizing w with
  | nil => exact .fail h f
  | cons hd hs ih =>
    refine (Yields.setPos h _).andThen h lasts fun _ _ _ => ?_
    refine (Yields.markLine h lasts _).andThen h lasts fun u _ _ => ?_
    refine (h.isCaught agree known f hd).andThen h lasts fun u' _ caught => ?_
    split
    · exact h.executes agree known (t := .clause f hd) (owned hd List.mem_cons_self) trivial
    · exact ih fun k hk => owned k (List.mem_cons_of_mem _ hk)

theorem Kept.tryBlock {body : List Stmt} {handlers : List Handler} {orelse final : List Stmt}
    {p : Position} (owned : c.Owns (.tryBlock body handlers orelse final p)) :
    R.Runs c w R.any (env.tryBlock d body handlers orelse final) := by
  have block {b : List Stmt} (hb : b ∈ (Stmt.tryBlock body handlers orelse final p).blocks) :
      R.Runs c w R.any (d.block b) := h.block agree known owned hb
  have caught (f : Failure) : R.Runs c w R.any
      (if f.isCatchable && !handlers.isEmpty then env.handle d.value d.run f handlers
        else Action.fail f) := by
    split
    · exact h.handle agree known f fun hd hmem => ⟨_, _, _, _, _, owned, hmem⟩
    · exact .fail h f
  have covered := (block (b := body) (by simp [Stmt.blocks])).proceed h h.lasts_frame
    (block (b := orelse) (by simp [Stmt.blocks])) caught
  unfold Setting.tryBlock
  split
  · exact covered
  · exact covered.lastly h h.lasts_frame (block (b := final) (by simp [Stmt.blocks]))

theorem Kept.perform {s : Stmt} (owned : c.Owns s) : R.Runs c w R.any (env.perform d s) := by
  have lasts := h.lasts_frame
  have value (w : R.World) (e : Expr) := agree.evaluates known w e h
  have nothing {w : R.World} : R.Runs c w R.any (pure () : Action σ Unit) :=
    .pure h fun _ _ => trivial
  cases s with
  | function head body => exact h.defineFunction agree known owned
  | classDef head body => exact h.defineClass agree known owned
  | ret value? p =>
    cases value? with
    | none => exact .giveBack h (h.plain w rfl)
    | some e => exact (value w e).bind h lasts fun u _ v hv => .giveBack h hv
  | delete targets p => exact h.deleteAll agree known fun _ ht => .stmt owned ht
  | assign targets e p =>
    exact (value w e).bind h lasts fun u _ v hv =>
      h.assignEach agree known (fun _ ht => .stmt owned ht) hv
  | augment target op e p =>
    exact h.augment agree known op e p (.stmt owned List.mem_cons_self)
  | annotate target annotation value? p =>
    cases value? with
    | none => exact nothing
    | some e =>
      exact (value w e).bind h lasts fun u _ v hv =>
        h.places agree known (t := .assign target v) ⟨.stmt owned List.mem_cons_self, hv⟩
  | forLoop target iter body orelse p =>
    refine (value w iter).bind h lasts fun u _ v hv => ?_
    have iterated : R.Runs c u R.items (readAt p (·.iterate v)) :=
      .readAt h fun u' later s μ i holds hi => h.iterate holds (h.value_mono later hv) hi
    exact iterated.bind h lasts fun u' _ i hi =>
      h.executes agree known (t := .forRounds target i body orelse p) ⟨iter, owned⟩ hi
  | whileLoop test body orelse p =>
    exact h.executes agree known (t := .whileRounds test body orelse p) owned trivial
  | cond test body orelse p =>
    refine (value w test).andThen h lasts fun u _ _ => ?_
    refine (Yields.read h (P := R.any) fun _ _ _ _ _ => trivial).andThen h lasts fun _ _ truth => ?_
    split
    · exact h.block agree known owned (by simp [Stmt.blocks])
    · exact h.block agree known owned (by simp [Stmt.blocks])
  | withBlock items body p =>
    exact (h.context agree known items).andThen h lasts fun _ _ _ => .raiseAt h _ p
  | tryBlock body handlers orelse final p => exact h.tryBlock agree known owned
  | raise exc p => exact h.raise agree known exc p
  | assert test message p => exact h.assert agree known test message p
  | importNames names p => exact .raiseAt h _ p
  | importFrom source names p =>
    simp only [Setting.perform]
    split
    · exact .raiseAt h _ p
    · exact .raiseAt h _ p
  | globalDecl | nonlocalDecl | pass => exact nothing
  | expr e p => exact (value w e).discard h lasts
  | brk p => exact .setJump h .brk
  | cont p => exact .setJump h .cont

theorem Kept.runStmt {s : Stmt} (owned : c.Owns s) : R.Runs c w R.any (env.runStmt d s) := by
  have lasts := h.lasts_frame
  apply Yields.reporting h lasts
  refine (Yields.setPos h _).andThen h lasts fun _ _ _ => ?_
  refine (Yields.markLines h lasts _).andThen h lasts fun _ _ _ => ?_
  exact h.perform agree known owned

theorem Kept.runBlock {body : List Stmt} (owned : ∀ s ∈ body, c.Owns s) :
    R.Runs c w R.any (runBlock d.run body) := by
  induction body with
  | nil => exact .pure h fun _ _ => trivial
  | cons s rest ih =>
    have first : R.Runs c w R.any (d.run (.stmt s)) :=
      h.executes agree known (t := .stmt s) (owned s List.mem_cons_self) trivial
    exact first.proceed h h.lasts_frame (ih fun t ht => owned t (List.mem_cons_of_mem _ ht))
      fun f => .fail h f

theorem Kept.whileRounds {test : Expr} {body orelse : List Stmt} {p : Position}
    (owned : c.Owns (.whileLoop test body orelse p)) :
    R.Runs c w R.any (env.whileRounds d test body orelse p) := by
  have lasts := h.lasts_frame
  refine (agree.evaluates known w test h).andThen h lasts fun u _ _ => ?_
  refine (Yields.read h (P := R.any) fun _ _ _ _ _ => trivial).andThen h lasts fun u' _ truth => ?_
  split
  · refine (h.block agree known owned (by simp [Stmt.blocks])).round h lasts ?_
    refine (Yields.setPos h _).andThen h lasts fun _ _ _ => ?_
    refine (Yields.markLine h lasts _).andThen h lasts fun _ _ _ => ?_
    exact h.executes agree known (t := .whileRounds test body orelse p) owned trivial
  · exact h.block agree known owned (by simp [Stmt.blocks])

theorem Kept.forRounds {target iter : Expr} {items : Items} {body orelse : List Stmt}
    {p : Position} (owned : c.Owns (.forLoop target iter body orelse p)) (hi : R.items w items) :
    R.Runs c w R.any (env.forRounds d target items body orelse p) := by
  have lasts := h.lasts_frame
  unfold Setting.forRounds
  split
  · exact h.block agree known owned (by simp [Stmt.blocks])
  · next v rest hnext =>
    obtain ⟨hv, hrest⟩ := h.next hi hnext
    have targets : c.Targets target := .stmt owned List.mem_cons_self
    refine (h.places agree known (t := .assign target v) ⟨targets, hv⟩).andThen h lasts
      fun u later _ => ?_
    refine (h.block agree known owned (by simp [Stmt.blocks])).round h lasts ?_
    refine (Yields.setPos h _).andThen h lasts fun u' later' _ => ?_
    refine (Yields.markLine h lasts _).andThen h lasts fun u'' later'' _ => ?_
    exact h.executes agree known (t := .forRounds target rest body orelse p) ⟨iter, owned⟩
      (h.items_mono (h.trans later (h.trans later' later'')) hrest)

omit agree in
theorem Kept.bindCaught (f : Failure) {name : Option String} (binds : ∀ n ∈ name, c.Binds n) :
    R.Runs c w R.any (bindCaught f name) := by
  unfold Action.bindCaught
  split
  · next n kind message q =>
    have made : R.Runs c w R.value (edit (Store.newException kind message)) :=
      .edit h fun _ _ _ _ holds => h.newException kind message holds
    exact made.bind h h.lasts_frame fun u _ v hv => h.store known (binds n rfl) hv
  · exact .pure h fun _ _ => trivial

omit agree in
theorem Kept.thenForget {x : Action σ Unit} {name : Option String} (binds : ∀ n ∈ name, c.Binds n)
    (hx : R.Runs c w R.any x) : R.Runs c w R.any (thenForget name x) := by
  cases name with
  | none => exact hx
  | some n =>
    intro w' later m ready
    have forget {u : R.World} {m' : Machine σ} (hu : R.le w' u) (after : R.After u m m') :
        ∃ u', R.le w' u' ∧ R.After u' m (m'.forget n) := by
      have there := ready.after h h.lasts_frame hu after
      obtain ⟨stack, f, hm, -, frame, -⟩ := there.frame
      have top : m'.stack.back?.getD .top = f := by rw [hm, Array.back?_push, Option.getD_some]
      rw [Machine.forget_eq, top]
      split
      · next e he =>
        obtain ⟨u', hu', holds, -⟩ := h.unassigned known frame (binds n rfl) there.holds he
        refine ⟨u', h.trans hu hu', after.trans (there.still holds ?_ rfl)⟩
        exact h.value_mono hu' there.returned
      · exact ⟨u, hu, after⟩
    have comes := hx later ready
    unfold Action.thenForget
    dsimp only
    cases hr : x m with
    | done a m' =>
      rw [hr] at comes
      obtain ⟨u, hu, after, -⟩ := comes
      obtain ⟨u', hu', forgotten⟩ := forget hu after
      exact ⟨u', hu', forgotten, trivial⟩
    | failed e m' =>
      rw [hr] at comes
      obtain ⟨u, hu, after⟩ := comes
      exact forget hu after
    | unfinished m' =>
      rw [hr] at comes
      exact comes

omit agree in
theorem Kept.clause (f : Failure) {name : Option String} {x : Action σ Unit}
    (binds : ∀ n ∈ name, c.Binds n) (hx : R.Runs c w R.any x) :
    R.Runs c w R.any (clause f name x) := by
  have lasts := h.lasts_frame
  refine (Yields.setReported h false).andThen h lasts fun u later _ => ?_
  refine (h.bindCaught known f binds).andThen h lasts fun u' later' _ => ?_
  exact h.thenForget known binds
    ((hx.later h (h.trans later later')).whileHandling h lasts f)

theorem Kept.execution {t : Execution} (allowed : c.Allows t) (goes : R.Goes w t) :
    R.Runs c w R.any (env.execution d t) := by
  cases t with
  | block body => exact h.runBlock agree known allowed
  | stmt s => exact h.runStmt agree known allowed
  | whileRounds test body orelse p => exact h.whileRounds agree known allowed
  | forRounds target items body orelse p =>
    obtain ⟨iter, owned⟩ := allowed
    exact h.forRounds agree known owned goes
  | clause f hd =>
    have body : R.Runs c w R.any (d.block hd.body) :=
      h.executes agree known (t := .block hd.body) (Code.Owns.of_clause allowed) trivial
    exact h.clause known f (fun n hn => Code.binds_of_clause allowed hn) body

end

/-! ### Runs -/

section

variable {d : Calls σ} (agree : R.Agree d) {m : Machine σ}

include agree

/-- A run of a script, if all that is asked for keeps to the regime. -/
theorem Kept.runWith_concludes (script : Script) (known : R.known (.top script))
    (stable : R.Stable w m) : R.Concludes w R.any m (env.runWith d script m) := by
  let begun : Machine σ := { m with timer := m.timer.start env.clock, jump := .none }
  have fresh : R.fresh w (.top script) .top := h.fresh_of_frame (h.frame_top w known)
  have body : R.Yields R.fresh (.top script) w R.any (d.block script.body) :=
    agree.run (t := .block script.body) known (Code.allows_body (.top script)) trivial
  have concludes : R.Concludes w R.value begun (env.inFrame .top (d.block script.body) begun) :=
    h.inFrame_concludes (m := begun) (.top script)
      ⟨stable.holds, stable.returned, stable.stands⟩ fresh body
  change R.Concludes w R.any m ((Functor.discard (env.inFrame .top (d.block script.body))) begun)
  rw [discard_apply]
  cases hr : env.inFrame .top (d.block script.body) begun with
  | done v m' =>
    rw [hr] at concludes
    obtain ⟨u, hu, closed, -⟩ := concludes
    exact ⟨u, hu, ⟨closed.holds, closed.returned, closed.stack⟩, trivial⟩
  | failed e m' =>
    rw [hr] at concludes
    obtain ⟨u, hu, closed⟩ := concludes
    exact ⟨u, hu, closed.holds, closed.returned, closed.stack⟩
  | unfinished m' =>
    rw [hr] at concludes
    exact concludes

/-- A call of a global function, if all that is asked for keeps to the regime. -/
theorem Kept.callWith_concludes (script : Script) (known : R.known (.top script))
    (stable : R.Stable w m) (name : String) {args : List Value} (hargs : R.values w args) :
    R.Concludes w R.value m (env.callWith d name args m) := by
  unfold Setting.callWith
  rw [bind_apply]
  simp only [Action.read, Action.observe]
  cases hcallee : m.store.callable? name with
  | none => exact ⟨w, h.refl w, stable.holds, stable.returned, rfl⟩
  | some callee =>
    have hc : R.value w callee := h.binding stable.holds (Option.filter_eq_some_iff.1 hcallee).1
    let below : Machine σ :=
      { m with stack := m.stack.push .host, timer := m.timer.start env.clock }
    have ready : R.Ready R.fresh (.top script) w below :=
      ⟨stable.holds, stable.returned, m.stack, .host, rfl, ⟨rfl, rfl⟩,
        h.fresh_of_frame (h.frame_top w known), stable.stands⟩
    have comes := agree.value (t := .call callee args m.pos) known ⟨hc, hargs⟩ (h.refl w) ready
    have back {u : R.World} {m' : Machine σ} (after : R.After u below m') :
        R.Closed u m { m' with stack := m'.stack.pop, jump := .none } := by
      obtain ⟨stack, f, line, reported, hstack, hstack'⟩ := after.frame
      obtain ⟨rfl, rfl⟩ := Array.push_eq_push.1 hstack
      refine ⟨after.holds, after.returned, ?_⟩
      dsimp only
      rw [hstack', Array.pop_push]
    change R.Concludes w R.value m
      (inHostFrame (d.value (.call callee args m.pos)) { m with timer := m.timer.start env.clock })
    unfold Action.inHostFrame
    dsimp only
    cases hr : d.value (.call callee args m.pos) below with
    | done v m' =>
      rw [hr] at comes
      obtain ⟨u, hu, after, hv⟩ := comes
      exact ⟨u, hu, back after, hv⟩
    | failed e m' =>
      rw [hr] at comes
      obtain ⟨u, hu, after⟩ := comes
      exact ⟨u, hu, back after⟩
    | unfinished m' =>
      rw [hr] at comes
      exact comes

end

end

end

end Regime

end Footprint
