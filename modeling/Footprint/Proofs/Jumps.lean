import Footprint.Machine.Run
import Footprint.Proofs.RunRelation

set_option autoImplicit false

/-!
Jumps and the values they carry. A statement that fails leaves no jump under way, and a value to be
returned is there only while a return is under way. Nothing but statements leaves a jump.
-/

namespace Footprint

section

variable {σ α β : Type}

/-- No jump is under way, and there is no value to be returned. -/
def Machine.Settled (m : Machine σ) : Prop := m.jump = .none ∧ m.returned = .none

/-- There is a value to be returned only if a return is under way, and nothing is after a
failure. -/
def Ending.Underway : Ending σ α → Prop
  | .done _ m => m.jump = .ret ∨ m.returned = .none
  | .failed _ m => m.Settled
  | .unfinished _ => True

theorem Ending.underway_of_settled {r : Ending σ α} (h : r.Ends Machine.Settled) : r.Underway := by
  cases r with
  | done a m => exact .inr h.2
  | failed f m => exact h
  | unfinished m => exact h

/-- Nothing is under way after the computation. -/
def Action.Settles (x : Action σ α) : Prop := ∀ ⦃m⦄, m.Settled → (x m).Ends Machine.Settled

/-- The computation is one of a statement. -/
def Action.Jumps (x : Action σ α) : Prop := ∀ ⦃m⦄, m.Settled → (x m).Underway

namespace Action

open Footprint.Setting

theorem Settles.jumps {x : Action σ α} (h : x.Settles) : x.Jumps :=
  fun _ hm => Ending.underway_of_settled (h hm)

theorem Settles.pure (a : α) : Settles (pure a : Action σ α) := fun _ hm => hm

/-- What holds of all that follows a computation, and of its failures, holds of both together. -/
theorem Settles.bind_ends {x : Action σ α} (hx : x.Settles) {f : α → Action σ β}
    {Q : Ending σ β → Prop} (failed : ∀ e m, m.Settled → Q (.failed e m))
    (unfinished : ∀ m, Q (.unfinished m)) (hf : ∀ a ⦃m⦄, m.Settled → Q (f a m)) {m : Machine σ}
    (hm : m.Settled) : Q ((x >>= f) m) := by
  have h := hx hm
  rw [bind_apply]
  cases hr : x m with
  | done a m' =>
    rw [hr] at h
    exact hf a h
  | failed e m' =>
    rw [hr] at h
    exact failed e m' h
  | unfinished m' => exact unfinished m'

theorem Settles.bind {x : Action σ α} {f : α → Action σ β} (hx : x.Settles)
    (hf : ∀ a, (f a).Settles) : (x >>= f).Settles :=
  fun _ hm => hx.bind_ends (fun _ _ h => h) (fun _ => trivial) hf hm

theorem Settles.andThen {x : Action σ α} {f : α → Action σ β} (hx : x.Settles)
    (hf : ∀ a, (f a).Jumps) : (x >>= f).Jumps :=
  fun _ hm => hx.bind_ends (fun _ _ h => h) (fun _ => trivial) hf hm

theorem Settles.observe (f : Store → Option (Except Failure α)) :
    Settles (observe f : Action σ α) := by
  intro m hm
  unfold Action.observe
  split
  · exact hm
  · exact hm
  · trivial

theorem Settles.editAt (p : Position) (plan : Store → Except Fault (Edit α)) :
    Settles (editAt p plan : Action σ α) := by
  intro m hm
  unfold Action.editAt
  split
  · exact hm
  · exact hm

theorem Settles.backAt {x : Action σ α} (h : x.Settles) (p : Position) : (backAt p x).Settles := by
  intro m hm
  have hx := h hm
  unfold Action.backAt
  cases hr : x m with
  | done a m' | failed e m' =>
    rw [hr] at hx
    exact hx
  | unfinished m' => trivial

theorem Settles.reraise (p : Position) : Settles (reraise p : Action σ Unit) := by
  intro m hm
  unfold Action.reraise
  split
  · exact hm
  · exact hm

/-! ### Statements -/

section

variable {x y : Action σ Unit}

theorem Jumps.proceed {h : Failure → Action σ Unit} (hx : x.Jumps) (hy : y.Jumps)
    (hh : ∀ f, (h f).Jumps) : (proceed x y h).Jumps := by
  intro m hm
  have underway := hx hm
  unfold Action.proceed
  cases hr : x m with
  | done a m' =>
    rw [hr] at underway
    dsimp only
    split
    · next none =>
      refine hy ⟨none, underway.resolve_left fun ret => ?_⟩
      rw [none] at ret
      cases ret
    · exact underway
  | failed f m' =>
    rw [hr] at underway
    exact hh f underway
  | unfinished m' => trivial

theorem Jumps.round (hx : x.Jumps) (hy : y.Jumps) : (round x y).Jumps := by
  intro m hm
  have underway := hx hm
  unfold Action.round
  cases hr : x m with
  | done a m' =>
    rw [hr] at underway
    have returned (h : m'.jump ≠ .ret) : m'.returned = .none := underway.resolve_left h
    dsimp only
    cases hj : m'.jump with
    | none => exact hy ⟨hj, returned (by simp [hj])⟩
    | cont => exact hy ⟨rfl, returned (by simp [hj])⟩
    | brk => exact .inr (returned (by simp [hj]))
    | ret => exact .inl hj
  | failed f m' =>
    rw [hr] at underway
    exact underway
  | unfinished m' => trivial

theorem Jumps.putAside (hx : x.Jumps) {pending : Machine σ → Ending σ Unit} {m : Machine σ}
    (hp : ∀ n : Machine σ, n.jump = m.jump → n.returned = m.returned → (pending n).Underway) :
    (putAside x pending m).Underway := by
  have underway := hx (m := { m with jump := .none, returned := .none }) ⟨rfl, rfl⟩
  rw [putAside_apply]
  cases hr : x { m with jump := .none, returned := .none } with
  | done a m' =>
    rw [hr] at underway
    dsimp only
    split
    · exact hp _ rfl rfl
    · exact underway
  | failed f m' =>
    rw [hr] at underway
    exact underway
  | unfinished m' => trivial

theorem Jumps.lastly (hx : x.Jumps) (hy : y.Jumps) : (lastly x y).Jumps := by
  intro m hm
  have underway := hx hm
  unfold Action.lastly
  cases hr : x m with
  | done a m' =>
    rw [hr] at underway
    apply hy.putAside
    intro n jump returned
    change n.jump = .ret ∨ n.returned = .none
    rw [jump, returned]
    exact underway
  | failed f m' =>
    rw [hr] at underway
    exact hy.putAside fun n jump returned => ⟨jump.trans underway.1, returned.trans underway.2⟩
  | unfinished m' => trivial

theorem Jumps.whileHandling (hx : x.Jumps) (f : Failure) : (whileHandling f x).Jumps := by
  intro m hm
  have underway := hx (m := { m with handling := f :: m.handling }) hm
  unfold Action.whileHandling
  cases hr : x { m with handling := f :: m.handling } with
  | done a m' | failed e m' =>
    rw [hr] at underway
    exact underway
  | unfinished m' => trivial

theorem forget_jump (m : Machine σ) (name : String) :
    (m.forget name).jump = m.jump ∧ (m.forget name).returned = m.returned := by
  rw [Machine.forget_eq]
  split
  · exact ⟨rfl, rfl⟩
  · exact ⟨rfl, rfl⟩

theorem Jumps.thenForget (hx : x.Jumps) (name : Option String) : (thenForget name x).Jumps := by
  cases name with
  | none => exact hx
  | some name =>
    intro m hm
    have underway := hx hm
    unfold Action.thenForget
    dsimp only
    cases hr : x m with
    | done a m' =>
      rw [hr] at underway
      obtain ⟨jump, returned⟩ := forget_jump m' name
      change (m'.forget name).jump = .ret ∨ (m'.forget name).returned = .none
      rw [jump, returned]
      exact underway
    | failed f m' =>
      rw [hr] at underway
      obtain ⟨jump, returned⟩ := forget_jump m' name
      exact ⟨jump.trans underway.1, returned.trans underway.2⟩
    | unfinished m' => trivial

end

/-! ### Events and frames -/

variable (env : Setting σ)

theorem settles_ask (e : Event) : (env.ask e).Settles := by
  intro m hm
  rw [ask_apply]
  split
  · split
    · split
      · exact hm
      · exact hm
    · exact hm
  · exact hm

theorem settles_tell (e : Event) : (env.tell e).Settles :=
  (settles_ask env e).bind fun _ => .pure ()

theorem settles_checkDeadline : env.checkDeadline.Settles := by
  intro m hm
  obtain ⟨timer, h | ⟨missed, h⟩⟩ := env.checkDeadline_apply m <;> rw [h]
  · exact hm
  · exact hm

theorem settles_startTimer : env.startTimer.Settles := fun _ hm => hm

theorem settles_modifyFrame (u : Frame → Frame) : Settles (modifyFrame u : Action σ Unit) :=
  fun _ hm => hm

theorem settles_frame : Settles (frame : Action σ Frame) := fun _ hm => hm

theorem settles_markLine (n : Nat) : (env.markLine n).Settles :=
  (settles_checkDeadline env).bind fun _ => (settles_modifyFrame _).bind fun _ =>
    settles_tell env .line

theorem settles_report (f : Failure) : (env.report f).Settles := by
  apply settles_frame.bind
  intro g
  split
  · exact (settles_modifyFrame _).bind fun _ => settles_tell env .exception
  · exact .pure ()

theorem settles_announce : env.announce.Settles := by
  refine (settles_ask env .call).bind fun answer => ?_
  split
  · exact settles_modifyFrame _
  · exact .pure ()

theorem settles_markHeader : env.markHeader.Settles := by
  apply settles_frame.bind
  intro f
  split
  · exact settles_markLine env _
  · exact .pure ()

/-- The end of a frame, when there is no value to be returned any more. -/
theorem settled_finish {r : Ending σ Value} (hr : r.Ends (·.returned = .none)) :
    (env.finish r).Ends Machine.Settled := by
  have told {m : Machine σ} (h : m.returned = .none) :
      (env.tell .ret { m with jump := .none }).Ends Machine.Settled :=
    settles_tell env .ret ⟨rfl, h⟩
  unfold finish
  cases r with
  | done v m =>
    have h := told hr
    dsimp only
    cases ht : env.tell .ret { m with jump := .none } with
    | done a m' | failed e m' =>
      rw [ht] at h
      exact h
    | unfinished m' => trivial
  | failed f m =>
    have h := told hr
    dsimp only
    cases ht : env.tell .ret { m with jump := .none } with
    | done a m' | failed e m' =>
      rw [ht] at h
      exact h
    | unfinished m' => trivial
  | unfinished m => trivial

/-- The value of the body of a frame takes away what was to be returned. -/
theorem Jumps.taken {x : Action σ Unit} (hx : x.Jumps) {m : Machine σ} (hm : m.Settled) :
    ((do x; result : Action σ Value) m).Ends (·.returned = .none) := by
  have underway := hx hm
  rw [bind_apply]
  cases hr : x m with
  | done a m' =>
    rw [hr] at underway
    dsimp only
    rw [result_apply]
    split
    · exact rfl
    · next other => exact underway.resolve_left other
  | failed e m' =>
    rw [hr] at underway
    exact underway.2
  | unfinished m' => trivial

theorem Jumps.inFrame {x : Action σ Unit} (hx : x.Jumps) (f : Frame) :
    (env.inFrame f x).Settles := by
  have failed (e : Failure) (m : Machine σ) (hm : m.Settled) :
      (Ending.failed e m : Ending σ Value).Ends (·.returned = .none) := hm.2
  intro m hm
  unfold Setting.inFrame
  split
  · exact hm
  · apply settled_finish
    have opened : Settles (push f : Action σ Unit) := fun _ hn => hn
    refine opened.bind_ends failed (fun _ => trivial) (fun _ n hn => ?_) hm
    refine (settles_announce env).bind_ends failed (fun _ => trivial) (fun _ n hn => ?_) hn
    refine (settles_markHeader env).bind_ends failed (fun _ => trivial) (fun _ n hn => ?_) hn
    exact hx.taken hn

theorem Settles.inHostFrame {x : Action σ Value} (hx : x.Settles) : (inHostFrame x).Settles := by
  intro m hm
  have h := hx (m := { m with stack := m.stack.push .host }) hm
  unfold Action.inHostFrame
  cases hr : x { m with stack := m.stack.push .host } with
  | done v m' | failed e m' =>
    rw [hr] at h
    exact ⟨rfl, h.2⟩
  | unfinished m' => trivial

/-! ### Runs -/

/-- The computations that leave nothing under way, and those of statements. -/
def settling (σ : Type) : RunRelation σ σ where
  known _ := True
  expr _ _ x _ := x.Settles
  stmt _ x _ := x.Jumps
  final _ x _ := x.Jumps

theorem settling_closed : (settling σ).Closed env env where
  pure _ := .pure
  bind := .bind
  observe _ := .observe
  editAt _ _ _ _ _ := .editAt _ _
  newFunction _ _ _ := fun _ hm => hm
  frameKind _ := fun _ hm => hm
  getPos _ := fun _ hm => hm
  setPos _ _ := fun _ hm => hm
  write _ _ := fun _ hm => hm
  reraise _ := .reraise
  checkDeadline _ := settles_checkDeadline env
  markLine _ := settles_markLine env _
  lookup _ _ _ h := (Settles.observe _).bind fun found => h found fun _ _ => trivial
  inFrame _ _ h := Jumps.inFrame env h _
  backAt p h := .backAt h p
  known_classBody _ _ := trivial
  ofExpr := Settles.jumps
  andThen := Settles.andThen
  setJump _ _ := fun _ hm => .inr hm.2
  giveBack _ _ := fun _ _ => .inl rfl
  proceed hx hy hh _ := .proceed hx hy hh
  round := .round
  lastly := .lastly

theorem settling_calls (n : Nat) : (settling σ).Agree (env.calls n) (env.calls n) := by
  have closed := settling_closed env
  refine closed.calls ⟨fun {c} _ _ hx => ?reporting, fun {c} f name _ _ hx => ?clause⟩ id n
  case reporting => exact closed.reporting (c := c) (settles_report env) hx
  case clause =>
    have bound : (bindCaught f name : Action σ Unit).Settles :=
      (closed.steps c).bindCaught f name
    exact (settles_modifyFrame _).andThen fun _ => bound.andThen fun _ =>
      (Jumps.whileHandling hx f).thenForget name

/-- Whatever jump was under way before a run, none is after it. -/
theorem settled_runScript (n : Nat) (script : Script) {m : Machine σ} (hm : m.returned = .none) :
    (env.runScript n script m).Ends Machine.Settled := by
  have body : Jumps (env.execute n (.block script.body)) :=
    (settling_calls env n).run (c := .top script) trivial _ (Code.allows_body _)
  have frame : Settles (discard (env.inFrame .top (env.execute n (.block script.body)))) :=
    (Jumps.inFrame env body .top).bind fun _ => .pure ()
  exact frame (m := { m with timer := m.timer.start env.clock, jump := .none }) ⟨rfl, hm⟩

theorem settles_callGlobal (n : Nat) (name : String) (args : List Value) :
    (env.callGlobal n name args).Settles := by
  unfold callGlobal callWith
  refine (Settles.observe _).bind fun callee => ?_
  cases callee with
  | none => exact .observe _
  | some v =>
    apply (settles_startTimer env).bind
    intro _
    refine Settles.inHostFrame (Settles.bind (x := getPos) (fun _ hm => hm) fun p => ?_)
    exact (settling_calls env n).value (c := .top ⟨[]⟩) trivial (.call v args p)

end Action

end

end Footprint
