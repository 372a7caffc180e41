import Footprint.Proofs.Chronicle
import Footprint.Proofs.Completion
import Footprint.Proofs.Covered

set_option autoImplicit false

/-!
Failures that a script cannot catch. In a script without finally blocks such a failure ends the run
it arises in. A finally block may discard it, but not one that is due to time: once a deadline has
been found to be missed the run ends with a missed deadline.
-/

namespace Footprint

open Footprint.Action

section

variable {σ ω α β : Type}

/-- Something that is watched for while code objects run. -/
structure Alarm (σ : Type) where
  known : Code → Prop
  /-- By the timer and the state of the listener, it has come to pass. -/
  rung : Timer → σ → Prop
  /-- The failures that a run ends with when it has come to pass. -/
  fatal : Failure → Prop

namespace Alarm

variable {A : Alarm σ} {env : Setting σ} {c : Code}

def Holds (A : Alarm σ) (s : Store) : Prop :=
  ∀ r f, s.function? r = some f → A.known (.function f.function)

def Rung (A : Alarm σ) (m : Machine σ) : Prop := A.rung m.timer m.monitor

/-- The alarm has not been rung, and all functions in the store are known. -/
structure Calm (A : Alarm σ) (m : Machine σ) : Prop where
  functions : A.Holds m.store
  unrung : ¬A.Rung m

/-- If the alarm has been rung this is a fatal failure. -/
def Minds (A : Alarm σ) : Ending σ α → Prop
  | .done _ m => A.Calm m
  | .failed f m => A.Holds m.store ∧ (A.Rung m → A.fatal f)
  | .unfinished _ => True

/-- Once the alarm has been rung the computation fails. -/
def Heeds (A : Alarm σ) (x : Action σ α) : Prop := ∀ ⦃m⦄, A.Calm m → A.Minds (x m)

/-- What a finally block comes to that lets a fatal failure pass. -/
def LetsPass (A : Alarm σ) : Ending σ Unit → Prop
  | .done _ m => A.Holds m.store ∧ m.jump = .none ∧ A.Rung m
  | .failed f m => A.Holds m.store ∧ A.fatal f
  | .unfinished _ => True

/-- When the alarm has been rung before it began, the finally block lets a fatal failure pass. -/
def Yields (A : Alarm σ) (x : Action σ Unit) : Prop :=
  ∀ ⦃m⦄, A.Holds m.store → m.jump = .none → A.Rung m → A.LetsPass (x m)

/-- The alarm fits what happens in a setting: it may be rung by an event other than a return to
which the answer is a failure, and by nothing else that is told. -/
structure Admits (A : Alarm σ) (env : Setting σ) : Prop where
  known_of_defines {c d : Code} : A.known c → c.Defines d → A.known d
  uncatchable {f : Failure} : A.fatal f → f.isCatchable = false
  hear {f : Frame} {d : Nat} {e : Event} {t : Timer} {s : σ} : ¬A.rung t s →
    A.rung t (env.hear f d e s).2 →
    e ≠ .ret ∧ ∃ text, (env.hear f d e s).1 = .error text ∧ ∀ p, A.fatal (.listener text p)
  checkDeadline : A.Heeds env.checkDeadline

/-! ### Steps -/

theorem Calm.still {m m' : Machine σ} (h : A.Calm m) (timer : m'.timer = m.timer)
    (monitor : m'.monitor = m.monitor) (functions : m'.store.functions = m.store.functions) :
    A.Calm m' := by
  refine ⟨fun r f hf => h.functions r f (by rwa [Store.function?, ← functions]), ?_⟩
  unfold Rung
  rw [timer, monitor]
  exact h.unrung

theorem Calm.minds_failed {m : Machine σ} (h : A.Calm m) (f : Failure) :
    A.Minds (.failed f m : Ending σ α) := ⟨h.functions, fun rung => absurd rung h.unrung⟩

namespace Heeds

theorem pure (a : α) : A.Heeds (pure a) := fun _ h => h

theorem bind {x : Action σ α} {f : α → Action σ β} (hx : A.Heeds x) (hf : ∀ a, A.Heeds (f a)) :
    A.Heeds (x >>= f) := by
  intro m h
  have minds := hx h
  rw [bind_apply]
  cases hr : x m with
  | done a m' =>
    rw [hr] at minds
    exact hf a minds
  | failed f m' | unfinished m' =>
    rw [hr] at minds
    exact minds

theorem observe (f : Store → Option (Except Failure α)) : A.Heeds (observe f) := by
  intro m h
  unfold Action.observe
  split
  · exact h
  · exact h.minds_failed _
  · trivial

theorem editAt (p : Position) {plan : Store → Except Fault (Edit α)}
    (keeps : ∀ s e, plan s = .ok e → (e s).2.functions = s.functions) :
    A.Heeds (editAt p plan) := by
  intro m h
  unfold Action.editAt
  split
  · next e he =>
    rw [edit_apply]
    exact h.still rfl rfl (keeps m.store e he)
  · exact h.minds_failed _

/-- Making a function of which it is known that it may be made. -/
theorem newFunction {f : Closure} (known : A.known (.function f.function)) :
    A.Heeds (edit (Store.newFunction f)) := by
  intro m h
  refine ⟨fun r g hg => ?_, h.unrung⟩
  have hpush : (m.store.functions.push f)[r.index]? = some g := hg
  rw [Array.getElem?_push] at hpush
  split at hpush
  · cases hpush
    exact known
  · exact h.functions r g hpush

theorem proceed {x y : Action σ Unit} {h : Failure → Action σ Unit} (hx : A.Heeds x)
    (hy : A.Heeds y) (hh : ∀ f, A.Heeds (h f)) (passed : ∀ f, A.fatal f → h f = fail f) :
    A.Heeds (proceed x y h) := by
  intro m calm
  have minds := hx calm
  unfold Action.proceed
  cases hr : x m with
  | done a m' =>
    rw [hr] at minds
    dsimp only
    split
    · exact hy minds
    · exact minds
  | failed f m' =>
    rw [hr] at minds
    dsimp only
    by_cases rung : A.Rung m'
    · rw [passed f (minds.2 rung)]
      exact minds
    · exact hh f ⟨minds.1, rung⟩
  | unfinished m' => trivial

theorem round {x y : Action σ Unit} (hx : A.Heeds x) (hy : A.Heeds y) : A.Heeds (round x y) := by
  intro m calm
  have minds := hx calm
  unfold Action.round
  cases hr : x m with
  | done a m' =>
    rw [hr] at minds
    have arrived : A.Calm { m' with jump := .none } := minds.still rfl rfl rfl
    dsimp only
    cases m'.jump with
    | none => exact hy minds
    | cont => exact hy arrived
    | brk => exact arrived
    | ret => exact minds
  | failed f m' | unfinished m' =>
    rw [hr] at minds
    exact minds

/-- A finally block when the alarm has not been rung. -/
theorem putAside {x : Action σ Unit} (hx : A.Heeds x) {pending : Machine σ → Ending σ Unit}
    (hp : A.Heeds pending) : A.Heeds (putAside x pending) := by
  intro m calm
  have aside : A.Calm { m with jump := .none, returned := .none } := calm.still rfl rfl rfl
  have minds := hx aside
  rw [putAside_apply]
  cases hr : x { m with jump := .none, returned := .none } with
  | done a m' =>
    rw [hr] at minds
    have back : A.Calm { m' with jump := m.jump, returned := m.returned } := minds.still rfl rfl rfl
    dsimp only
    split
    · exact hp back
    · exact minds
  | failed f m' | unfinished m' =>
    rw [hr] at minds
    exact minds

end Heeds

/-- A finally block when the alarm has been rung: the failure that is fatal stands, or another one
does. -/
theorem Yields.putAside {x : Action σ Unit} (hx : A.Yields x) {m : Machine σ}
    (holds : A.Holds m.store) (rung : A.Rung m) {f : Failure} (fatal : A.fatal f) :
    A.Minds (putAside x (.failed f) m) := by
  have passes := hx (m := { m with jump := .none, returned := .none }) holds rfl rung
  rw [putAside_apply]
  cases hr : x { m with jump := .none, returned := .none } with
  | done a m' =>
    rw [hr] at passes
    dsimp only
    rw [if_pos passes.2.1]
    exact ⟨passes.1, fun _ => fatal⟩
  | failed g m' =>
    rw [hr] at passes
    exact ⟨passes.1, fun _ => passes.2⟩
  | unfinished m' => trivial

theorem Heeds.lastly {x y : Action σ Unit} (hx : A.Heeds x) (hy : A.Heeds y) (yields : A.Yields y) :
    A.Heeds (lastly x y) := by
  intro m calm
  have minds := hx calm
  unfold Action.lastly
  cases hr : x m with
  | done a m' =>
    rw [hr] at minds
    have ended : A.Heeds (Ending.done (σ := σ) ()) := fun _ h => h
    exact hy.putAside ended minds
  | failed f m' =>
    rw [hr] at minds
    by_cases rung : A.Rung m'
    · exact yields.putAside minds.1 rung (minds.2 rung)
    · have ended : A.Heeds (Ending.failed (σ := σ) (α := Unit) f) := fun _ h => h.minds_failed f
      exact hy.putAside ended ⟨minds.1, rung⟩
  | unfinished m' => trivial

theorem Heeds.backAt {x : Action σ α} (hx : A.Heeds x) (p : Position) : A.Heeds (backAt p x) := by
  intro m calm
  have minds := hx calm
  unfold Action.backAt
  cases hr : x m with
  | done a m' | failed f m' =>
    rw [hr] at minds
    first | exact minds.still rfl rfl rfl | exact minds
  | unfinished m' => trivial

theorem Heeds.whileHandling {x : Action σ Unit} (hx : A.Heeds x) (f : Failure) :
    A.Heeds (whileHandling f x) := by
  intro m calm
  have handled : A.Calm { m with handling := f :: m.handling } := calm.still rfl rfl rfl
  have minds := hx handled
  unfold Action.whileHandling
  cases hr : x { m with handling := f :: m.handling } with
  | done a m' | failed e m' =>
    rw [hr] at minds
    first | exact minds.still rfl rfl rfl | exact minds
  | unfinished m' => trivial

theorem Heeds.thenForget {x : Action σ Unit} (hx : A.Heeds x) (name : Option String) :
    A.Heeds (thenForget name x) := by
  cases name with
  | none => exact hx
  | some name =>
    intro m calm
    have minds := hx calm
    have rung {m' : Machine σ} : A.Rung (m'.forget name) ↔ A.Rung m' := by
      unfold Rung
      rw [forget_timer, forget_monitor]
    have holds {m' : Machine σ} (h : A.Holds m'.store) : A.Holds (m'.forget name).store :=
      fun r f hf => h r f (by rwa [Store.function?, ← forget_functions m' name])
    unfold Action.thenForget
    dsimp only
    cases hr : x m with
    | done a m' =>
      rw [hr] at minds
      exact ⟨holds minds.functions, fun h => minds.unrung (rung.1 h)⟩
    | failed f m' =>
      rw [hr] at minds
      exact ⟨holds minds.1, fun h => minds.2 (rung.1 h)⟩
    | unfinished m' => trivial

/-! ### Events and frames -/

section

variable (admits : A.Admits env)

include admits

theorem heeds_ask (e : Event) : A.Heeds (env.ask e) := by
  intro m calm
  rw [Setting.ask_eq_hear]
  cases m.stack.back? with
  | none => exact calm
  | some f =>
    have rings := admits.hear (f := f) (d := m.stack.size) (e := e) calm.unrung
    dsimp only
    cases hc : env.hear f m.stack.size e m.monitor with
    | mk answer s =>
      rw [hc] at rings
      cases answer with
      | ok c => exact ⟨calm.functions, fun rung => nomatch (rings rung).2⟩
      | error text =>
        refine ⟨calm.functions, fun rung => ?_⟩
        obtain ⟨-, _, same, fatal⟩ := rings rung
        cases same
        exact fatal m.pos

/-- Whatever is answered to a return, it does not ring the alarm. -/
theorem tell_ret (m : Machine σ) :
    ∃ s, (¬A.Rung m → ¬A.rung m.timer s) ∧
      (env.tell .ret m = .done () { m with monitor := s } ∨
        ∃ f, env.tell .ret m = .failed f { m with monitor := s }) := by
  rw [Setting.tell_apply, Setting.ask_eq_hear]
  cases m.stack.back? with
  | none => exact ⟨m.monitor, id, .inl rfl⟩
  | some f =>
    refine ⟨(env.hear f m.stack.size .ret m.monitor).2, fun unrung rung => ?_, ?_⟩
    · exact (admits.hear unrung rung).1 rfl
    · dsimp only
      cases env.hear f m.stack.size .ret m.monitor with
      | mk answer s =>
        cases answer with
        | ok c => exact .inl rfl
        | error text => exact .inr ⟨_, rfl⟩

theorem heeds_tell (e : Event) : A.Heeds (env.tell e) :=
  (heeds_ask admits e).bind fun _ => .pure ()

omit admits in
theorem heeds_modifyFrame (u : Frame → Frame) : A.Heeds (modifyFrame u : Action σ Unit) :=
  fun _ calm => calm.still rfl rfl rfl

omit admits in
theorem heeds_frame : A.Heeds (frame : Action σ Frame) := fun _ calm => calm

theorem heeds_markLine (n : Nat) : A.Heeds (env.markLine n) :=
  admits.checkDeadline.bind fun _ => (heeds_modifyFrame _).bind fun _ => heeds_tell admits .line

theorem heeds_report (f : Failure) : A.Heeds (env.report f) := by
  refine heeds_frame.bind fun g => ?_
  split
  · exact (heeds_modifyFrame _).bind fun _ => heeds_tell admits .exception
  · exact .pure ()

theorem heeds_announce : A.Heeds env.announce := by
  refine (heeds_ask admits .call).bind fun answer => ?_
  split
  · exact heeds_modifyFrame _
  · exact .pure ()

theorem heeds_markHeader : A.Heeds env.markHeader := by
  refine heeds_frame.bind fun f => ?_
  split
  · exact heeds_markLine admits _
  · exact .pure ()

/-- The end of a frame. A failure of the listener at the return of a frame that an exception leaves
is dropped. -/
theorem minds_finish {r : Ending σ Value} (h : A.Minds r) : A.Minds (env.finish r) := by
  unfold Setting.finish
  cases r with
  | done v m =>
    have stopped : A.Calm { m with jump := .none } := h.still rfl rfl rfl
    have minds := heeds_tell admits .ret stopped
    dsimp only
    cases ht : env.tell .ret { m with jump := .none } with
    | done a m' | failed e m' =>
      rw [ht] at minds
      first | exact minds.still rfl rfl rfl | exact minds
    | unfinished m' => trivial
  | failed f m =>
    obtain ⟨s, kept, told | ⟨e, told⟩⟩ := tell_ret admits { m with jump := .none } <;>
      simp only [told]
    · exact ⟨h.1, fun rung => h.2 (by_contra fun unrung => kept unrung rung)⟩
    · exact ⟨h.1, fun rung => h.2 (by_contra fun unrung => kept unrung rung)⟩
  | unfinished m => trivial

theorem heeds_inFrame (frame : Frame) {x : Action σ Unit} (hx : A.Heeds x) :
    A.Heeds (env.inFrame frame x) := by
  have push : A.Heeds (push frame : Action σ Unit) := fun _ calm => calm.still rfl rfl rfl
  have result : A.Heeds (result : Action σ Value) := by
    intro m calm
    rw [result_apply]
    split
    · exact calm.still rfl rfl rfl
    · exact calm
  have body : A.Heeds (do Action.push frame; env.announce; env.markHeader; x; Action.result) :=
    push.bind fun _ => (heeds_announce admits).bind fun _ =>
      (heeds_markHeader admits).bind fun _ => hx.bind fun _ => result
  intro m calm
  unfold Setting.inFrame
  split
  · exact calm.minds_failed _
  · exact minds_finish admits (body calm)

/-! ### Runs -/

omit admits in
/-- The computations that heed the alarm, and finally blocks that besides let fatal failures
pass. -/
def relation (A : Alarm σ) : RunRelation σ σ where
  known := A.known
  expr c _ x _ := A.known c → A.Heeds x
  stmt c x _ := A.known c → A.Heeds x
  final c x _ := A.known c → A.Heeds x ∧ A.Yields x

theorem closed : A.relation.Closed env env where
  pure _ _ a _ := .pure a
  bind hx hf known := (hx known).bind fun a => hf a known
  observe _ _ f _ := .observe f
  editAt _ _ p _ keeps _ := .editAt p keeps
  newFunction _ _ owned known := .newFunction (admits.known_of_defines known (.function owned))
  frameKind _ _ _ calm := calm
  getPos _ _ _ calm := calm
  setPos _ _ _ _ calm := calm.still rfl rfl rfl
  write _ _ _ _ calm := calm.still rfl rfl rfl
  reraise _ p _ m calm := by
    unfold Action.reraise
    split
    · exact calm.minds_failed _
    · exact calm.minds_failed _
  checkDeadline _ _ := admits.checkDeadline
  markLine _ _ := heeds_markLine admits _
  lookup r _ _ h known m calm := h (m.store.function? r) (calm.functions r) known calm
  inFrame known _ hx _ := heeds_inFrame admits _ (hx known)
  backAt p hx known := (hx known).backAt p
  known_classBody known owned := admits.known_of_defines known (.classBody owned)
  ofExpr h := h
  andThen hx hf known := (hx known).bind fun a => hf a known
  setJump _ _ _ _ calm := calm.still rfl rfl rfl
  giveBack _ _ _ _ calm := calm.still rfl rfl rfl
  proceed hx hy hh passed known := .proceed (hx known) (hy known) (fun f => hh f known)
    fun f fatal => (passed f (admits.uncatchable fatal)).1
  round hx hy known := .round (hx known) (hy known)
  lastly hx hy known := .lastly (hx known) (hy known).1 (hy known).2

theorem encloses : A.relation.Encloses env env where
  reporting {c} x _ hx := (closed admits).reporting (c := c) (y := x)
    (fun f _ => heeds_report admits f) hx
  clause {c} f name _ _ hx known := by
    have bound : A.Heeds (bindCaught f name) := ((closed admits).steps c).bindCaught f name known
    exact (heeds_modifyFrame _).bind fun _ => bound.bind fun _ =>
      ((hx known).whileHandling f).thenForget name

variable {d : Calls σ} (agree : A.relation.Agree d d)

include agree

theorem minds_runWith (script : Script) (known : A.known (.top script)) {m : Machine σ}
    (holds : A.Holds m.store) (unrung : ¬A.rung (m.timer.start env.clock) m.monitor) :
    A.Minds (env.runWith d script m) := by
  have body := agree.run (c := .top script) known _ (Code.allows_body _) known
  let begun : Machine σ := { m with timer := m.timer.start env.clock, jump := .none }
  have run := (heeds_inFrame admits .top body).bind fun _ => .pure ()
  exact run (m := begun) ⟨holds, unrung⟩

variable (env) in
omit admits in
/-- A call of a global function; there may be none of that name. -/
theorem minds_callWith (script : Script) (known : A.known (.top script)) (name : String)
    (args : List Value) {m : Machine σ} (holds : A.Holds m.store)
    (unrung : ¬A.rung (m.timer.start env.clock) m.monitor) :
    env.callWith d name args m = .failed (.noSuchFunction name) m ∨
      A.Minds (env.callWith d name args m) := by
  unfold Setting.callWith
  rw [bind_apply]
  simp only [Action.read, Action.observe]
  cases m.store.callable? name with
  | none => exact .inl rfl
  | some callee =>
    refine .inr ?_
    let below : Machine σ :=
      { m with stack := m.stack.push .host, timer := m.timer.start env.clock }
    have minds := agree.value known (.call callee args m.pos) known (m := below) ⟨holds, unrung⟩
    change A.Minds
      (inHostFrame (d.value (.call callee args m.pos)) { m with timer := m.timer.start env.clock })
    unfold Action.inHostFrame
    dsimp only
    cases hr : d.value (.call callee args m.pos) below with
    | done v m' | failed e m' =>
      rw [hr] at minds
      first | exact minds.still rfl rfl rfl | exact minds
    | unfinished m' => trivial

end

end Alarm

/-! ### Scripts without finally blocks -/

def Node.hasFinally : Node → Bool
  | .stmt (.tryBlock _ _ _ final _) => !final.isEmpty
  | _ => false

/-- No code object of a script has a finally block if none can be found in the tree. -/
theorem Script.Contains.ownsFinal_of_count {s : Script} {c : Code} (h : s.Contains c)
    (without : s.count Node.hasFinally = 0) (final : List Stmt) : ¬c.OwnsFinal final := by
  rintro ⟨nonempty, body, handlers, orelse, p, owns⟩
  have walked : Node.stmt (.tryBlock body handlers orelse final p) ∈ (Node.script s).walk := by
    rw [← Node.map_snd_owned (.top s)]
    exact List.mem_map_of_mem (h.owns owns)
  have none := List.countP_eq_zero.1 without _ walked
  simp only [Node.hasFinally, Bool.not_eq_true'] at none
  exact none (by simpa using nonempty)

/-- A failure that the script cannot catch, or a failing answer to an event other than a return. -/
def Sign.isAlarm : Sign → Bool
  | .heard ⟨_, e, .error _⟩ => e != .ret
  | .heard ⟨_, _, .ok _⟩ => false
  | .failed f | .out f _ => !f.isCatchable
  | .caught _ => false

/-- The alarm that is rung by what the chronicle of a script without finally blocks says. -/
def Alarm.chronicled (ω : Type) (script : Script) : Alarm (Monitors (ω × List Sign)) where
  known := script.Contains
  rung _ μ := ∃ sign ∈ μ.notes, sign.isAlarm
  fatal f := f.isCatchable = false

namespace Alarm

variable {script : Script}

theorem rung_addNote {t : Timer} {μ : Monitors (ω × List Sign)} {sign : Sign} :
    (chronicled ω script).rung t (μ.addNote sign) ↔
      (chronicled ω script).rung t μ ∨ sign.isAlarm := by
  change (∃ s ∈ μ.notes ++ [sign], s.isAlarm) ↔ (∃ s ∈ μ.notes, s.isAlarm) ∨ sign.isAlarm
  simp only [List.mem_append, List.mem_singleton, or_and_right, exists_or, exists_eq_left]

theorem chronicled_admits (i : Interpreter ω) (script : Script) :
    (chronicled ω script).Admits i.chronicled.setting where
  known_of_defines := .inner
  uncatchable := id
  hear := by
    intro f d e t s unrung rung
    unfold Setting.hear Interpreter.setting Interpreter.chronicled Interpreter.noting at rung ⊢
    cases hl : i.listener with
    | none =>
      rw [hl] at rung
      exact absurd rung unrung
    | some l =>
      rw [hl] at rung
      dsimp only [Option.map_some] at rung ⊢
      split
      · next told =>
        rw [if_pos told] at rung
        obtain ⟨sign, hmem, alarm⟩ := rung
        rcases List.mem_append.1 hmem with old | new
        · exact absurd ⟨sign, old, alarm⟩ unrung
        · obtain rfl := List.mem_singleton.1 new
          cases hc : (l.hear (f.info d) e s.plain).1 with
          | ok c =>
            rw [hc] at alarm
            cases alarm
          | error text =>
            rw [hc] at alarm
            exact ⟨by simpa [Sign.isAlarm, Sign.event] using alarm, text, hc, fun _ => rfl⟩
      · next untold =>
        rw [if_neg untold] at rung
        exact absurd rung unrung
  checkDeadline := by
    intro m calm
    obtain ⟨timer, h | ⟨missed, h⟩⟩ := i.chronicled.setting.checkDeadline_apply m <;> rw [h]
    · exact ⟨calm.functions, calm.unrung⟩
    · exact ⟨calm.functions, fun _ => rfl⟩

theorem Heeds.noteFailure {α : Type} {x : Action (Monitors (ω × List Sign)) α}
    (hx : (chronicled ω script).Heeds x) {sign : Failure → Frame → Sign}
    (alarms : ∀ f frame, (sign f frame).isAlarm = !f.isCatchable) :
    (chronicled ω script).Heeds (Action.noteFailure sign x) := by
  intro m calm
  have minds := hx calm
  unfold Action.noteFailure
  cases hr : x m with
  | done a m' | unfinished m' =>
    rw [hr] at minds
    exact minds
  | failed f m' =>
    rw [hr] at minds
    refine ⟨minds.1, fun rung => ?_⟩
    rcases rung_addNote.1 rung with before | alarm
    · exact minds.2 before
    · rwa [alarms, Bool.not_eq_true'] at alarm

theorem Heeds.noteCaught {x : Action (Monitors (ω × List Sign)) Unit}
    (hx : (chronicled ω script).Heeds x) :
    (chronicled ω script).Heeds (do Action.note (.caught ·.traced); x) := by
  intro m calm
  refine hx ⟨calm.functions, fun rung => ?_⟩
  rcases rung_addNote.1 rung with before | alarm
  · exact calm.unrung before
  · exact Bool.false_ne_true alarm

theorem chronicle_agree (i : Interpreter ω) (without : script.count Node.hasFinally = 0) (n : Nat) :
    (chronicled ω script).relation.Agree (i.chronicled.setting.chronicle n)
      (i.chronicled.setting.chronicle n) := by
  have admits := chronicled_admits i script
  have closed := Alarm.closed admits
  induction n with
  | zero =>
    exact closed.unanswered fun _ final known owned =>
      absurd owned (known.ownsFinal_of_count without final)
  | succ n ih =>
    constructor
    · intro c known t _
      exact .noteFailure (closed.evaluation ih known t known) fun _ _ => rfl
    · intro c known t _
      exact .noteFailure (closed.placement ih known t known) fun _ _ => rfl
    · intro c known t allowed _
      have heeds := closed.execution ih known (Alarm.encloses admits) allowed known
      cases t with
      | clause f hd => exact .noteFailure (.noteCaught heeds) fun _ _ => rfl
      | block | stmt | whileRounds | forRounds => exact .noteFailure heeds fun _ _ => rfl
    · intro c known final owned
      exact absurd owned (known.ownsFinal_of_count without final)

end Alarm

/-! ### Deadlines -/

/-- One of the readings of the clock was after the deadline. -/
def Timer.Overdue (clock : Clock) (milliseconds : Nat) (t : Timer) : Prop :=
  ∃ start ∈ t.started, ∃ k < t.readings, milliseconds * 1000000 < clock k - start

/-- The alarm that is rung when a deadline is found to be missed. -/
def Alarm.deadline (σ : Type) (clock : Clock) (milliseconds : Nat) : Alarm σ where
  known _ := True
  rung t _ := t.Overdue clock milliseconds
  fatal f := ∃ missed, f = .deadline missed

/-- The clock never goes back. -/
def Clock.Ascends (clock : Clock) : Prop := ∀ a b, a ≤ b → clock a ≤ clock b

namespace Timer

variable {clock : Clock} {ms : Nat} {t : Timer}

theorem overdue_next : t.next.Overdue clock ms ↔
    t.Overdue clock ms ∨ t.isOver clock ms = true := by
  have readings {k : Nat} : k < t.next.readings ↔ k < t.readings ∨ k = t.readings :=
    Nat.lt_succ_iff_lt_or_eq
  have started : t.next.started = t.started := rfl
  unfold Overdue isOver
  simp only [started, readings]
  cases t.started with
  | none => simp
  | some start =>
    simp only [Option.mem_some, exists_eq_left', decide_eq_true_eq]
    constructor
    · rintro ⟨k, before | rfl, late⟩
      · exact .inl ⟨k, before, late⟩
      · exact .inr late
    · rintro (⟨k, before, late⟩ | late)
      · exact ⟨k, .inl before, late⟩
      · exact ⟨_, .inr rfl, late⟩

/-- What has been missed stays missed. -/
theorem Overdue.isOver (ascends : clock.Ascends) (h : t.Overdue clock ms) :
    t.isOver clock ms = true := by
  obtain ⟨start, started, k, before, late⟩ := h
  have later := ascends k t.readings (Nat.le_of_lt before)
  unfold Timer.isOver
  rw [Option.mem_def.1 started]
  dsimp only
  rw [decide_eq_true_eq]
  omega

theorem not_overdue_start (ascends : clock.Ascends) (t : Timer) :
    ¬(t.start clock).Overdue clock ms := by
  rintro ⟨start, started, k, before, late⟩
  obtain rfl : clock t.readings = start := Option.some.inj started
  have before : k < t.readings + 1 := before
  have earlier := ascends k t.readings (Nat.le_of_lt_succ before)
  omega

end Timer

namespace Alarm

variable {env : Setting σ} {ms : Nat} (limited : env.limits.deadline = some ms)

include limited

theorem deadline_admits : (deadline σ env.clock ms).Admits env where
  known_of_defines _ _ := trivial
  uncatchable := by
    rintro _ ⟨missed, rfl⟩
    rfl
  hear unrung rung := absurd rung unrung
  checkDeadline := by
    intro m calm
    unfold Setting.checkDeadline
    rw [limited]
    dsimp only
    split
    · exact ⟨calm.functions, fun _ => ⟨_, rfl⟩⟩
    · next punctual =>
      refine ⟨calm.functions, fun rung => ?_⟩
      rcases Timer.overdue_next.1 rung with before | late
      · exact calm.unrung before
      · exact punctual late

theorem markLine_late {m : Machine σ} (late : m.timer.isOver env.clock ms = true) (n : Nat) :
    env.markLine n m = .failed (.deadline ⟨ms, m.pos⟩) { m with timer := m.timer.next } := by
  apply bind_failed
  unfold Setting.checkDeadline
  rw [limited]
  dsimp only
  rw [if_pos late]

variable (ascends : env.clock.Ascends)

include ascends

/-- After the deadline no statement is begun, unless it only declares. -/
theorem yields_stmt (n : Nat) (s : Stmt) :
    (deadline σ env.clock ms).Yields (env.execute n (.stmt s)) := by
  intro m holds jump rung
  cases n with
  | zero => trivial
  | succ n =>
    let told : Action σ Unit := do
      setPos s.pos
      env.markLines s.toldLines
      env.perform (env.calls n) s
    change LetsPass _ (env.reporting told m)
    unfold Setting.reporting Action.proceed
    by_cases declares : s.isDeclaration = true
    · have ended : told m = .done () { m with pos := s.pos } := by
        cases s with
        | globalDecl | nonlocalDecl => rfl
        | _ => cases declares
      rw [ended]
      dsimp only
      rw [if_pos jump]
      exact ⟨holds, jump, rung⟩
    · have late : m.timer.isOver env.clock ms = true := rung.isOver ascends
      obtain ⟨line, rest, lines⟩ : ∃ line rest, s.toldLines = line :: rest := by
        unfold Stmt.toldLines
        rw [if_neg declares]
        exact List.exists_cons_of_ne_nil (by simp)
      have missed : told m = .failed (.deadline ⟨ms, s.pos⟩)
          { m with pos := s.pos, timer := m.timer.next } := by
        change (do env.markLines s.toldLines; env.perform (env.calls n) s) { m with pos := s.pos } =
          _
        rw [lines]
        have stopped := markLine_late (m := { m with pos := s.pos }) limited late
        exact bind_failed (bind_failed (stopped _))
      rw [missed]
      dsimp only
      rw [RunRelation.report_fail env rfl]
      exact ⟨holds, _, rfl⟩

theorem yields_block (n : Nat) (body : List Stmt) :
    (deadline σ env.clock ms).Yields (env.execute n (.block body)) := by
  cases n with
  | zero => exact fun _ _ _ _ => trivial
  | succ n =>
    induction body with
    | nil => exact fun _ holds jump rung => ⟨holds, jump, rung⟩
    | cons s rest ih =>
      intro m holds jump rung
      have first := yields_stmt limited ascends n s holds jump rung
      change LetsPass _ (Action.proceed (env.execute n (.stmt s)) _ fail m)
      unfold Action.proceed
      cases hr : env.execute n (.stmt s) m with
      | done a m' =>
        rw [hr] at first
        dsimp only
        rw [if_pos first.2.1]
        exact ih first.1 first.2.1 first.2.2
      | failed f m' =>
        rw [hr] at first
        exact first
      | unfinished m' => trivial

theorem deadline_agree (n : Nat) :
    (deadline σ env.clock ms).relation.Agree (env.calls n) (env.calls n) := by
  have admits := deadline_admits limited
  have closed := Alarm.closed admits
  induction n with
  | zero => exact closed.unanswered fun _ _ _ _ _ => ⟨fun _ _ => trivial, fun _ _ _ _ => trivial⟩
  | succ n ih =>
    refine closed.next (Alarm.encloses admits) (fun c final _ _ heeds known => ⟨heeds known, ?_⟩) ih
    exact yields_block limited ascends (n + 1) final

end Alarm

/-! ### Runs and calls -/

namespace Interpreter

variable {i : Interpreter ω} {p : Program} {limits : Limits} {μ : Monitors ω}

/-- A computation ends with a failure that the script cannot catch, or not at all. -/
def EndsByHost {σ α : Type} (r : Ending σ α) : Prop :=
  (∃ m, r = .unfinished m) ∨ ∃ f m, r = .failed f m ∧ f.isCatchable = false

theorem endsByHost_of_minds {α : Type} {script : Script}
    {r : Ending (Monitors (ω × List Sign)) α} (h : (Alarm.chronicled ω script).Minds r)
    {sign : Sign} (hmem : sign ∈ r.machine.monitor.notes) (alarm : sign.isAlarm) :
    EndsByHost r := by
  cases r with
  | done a m => exact absurd ⟨sign, hmem, alarm⟩ h.unrung
  | failed f m => exact .inr ⟨f, m, rfl, h.2 ⟨sign, hmem, alarm⟩⟩
  | unfinished m => exact .inl ⟨m, rfl⟩

theorem Kept.chronicleRun_endsByHost (h : Kept p i μ) (without : p.script.count Node.hasFinally = 0)
    (n : Nat) {sign : Sign} (hmem : sign ∈ (i.chronicleRun n μ).machine.monitor.notes)
    (alarm : sign.isAlarm) : EndsByHost (i.chronicleRun n μ) := by
  obtain ⟨rfl, wrote, -, -⟩ := h
  have run := Alarm.minds_runWith (Alarm.chronicled_admits i _) (Alarm.chronicle_agree i without n)
    i.program.script .top (m := i.unnoted μ) wrote ?unrung
  case unrung =>
    rintro ⟨sign, hmem, -⟩
    exact absurd hmem List.not_mem_nil
  exact endsByHost_of_minds run hmem alarm

theorem Kept.chronicleCall_endsByHost (h : Kept p i μ)
    (without : p.script.count Node.hasFinally = 0) (n : Nat) (name : String)
    {args : Edit (List Value)} (keeps : args.KeepsFunctions) {sign : Sign}
    (hmem : sign ∈ (i.chronicleCall n μ name args).machine.monitor.notes)
    (alarm : sign.isAlarm) : EndsByHost (i.chronicleCall n μ name args) := by
  obtain ⟨rfl, wrote, -, -⟩ := h
  let m : Machine (Monitors (ω × List Sign)) :=
    { i.unnoted μ with store := (args i.machine.store).2 }
  have call := Alarm.minds_callWith i.chronicled.setting
    (Alarm.chronicle_agree i without n) i.program.script .top name (args i.machine.store).1
    (m := m) (wrote.of_keeps keeps) ?unrung
  case unrung =>
    rintro ⟨sign, hmem, -⟩
    exact absurd hmem List.not_mem_nil
  rcases call with absent | minds
  · exact .inr ⟨_, m, absent, rfl⟩
  · exact endsByHost_of_minds minds hmem alarm

theorem act_failed {α : Type} {x : Setting (Monitors ω) → Action (Monitors ω) α} {f : Failure}
    {m : Machine (Monitors ω)} (h : x i.setting (i.machine.withMonitor μ) = .failed f m) :
    i.act μ x = some (.error f, { i with machine := m.withMonitor () }, m.monitor) := by
  unfold act
  rw [h]

theorem deadline_of_act {α : Type} {j : Interpreter ω} {ν : Monitors ω} {ms : Nat}
    {x : Setting (Monitors ω) → Action (Monitors ω) α} {r : Except Failure α}
    (minds : (Alarm.deadline _ i.clock ms).Minds (x i.setting (i.machine.withMonitor μ)))
    (ended : i.act μ x = some (r, j, ν)) (late : j.machine.timer.Overdue i.clock ms) :
    ∃ missed, r = .error (.deadline missed) := by
  unfold act at ended
  cases hr : x i.setting (i.machine.withMonitor μ) with
  | done a m =>
    rw [hr] at ended minds
    cases ended
    exact absurd late minds.unrung
  | failed f m =>
    rw [hr] at ended minds
    cases ended
    obtain ⟨missed, rfl⟩ := minds.2 late
    exact ⟨missed, rfl⟩
  | unfinished m =>
    rw [hr] at ended
    cases ended

section

variable {ms : Nat} (limited : i.setting.limits.deadline = some ms) (ascends : i.clock.Ascends)
  {j : Interpreter ω} {ν : Monitors ω} {n : Nat}

include limited ascends

theorem deadline_of_run {r : Except Failure Unit} (ended : i.run n μ = some (r, j, ν))
    (late : j.machine.timer.Overdue i.clock ms) : ∃ missed, r = .error (.deadline missed) := by
  have agree := Alarm.deadline_agree limited ascends n
  refine deadline_of_act ?_ ended late
  exact Alarm.minds_runWith (Alarm.deadline_admits limited) agree
    i.program.script trivial (fun _ _ _ => trivial) (Timer.not_overdue_start ascends _)

theorem deadline_of_call {name : String} {args : Edit (List Value)} {r : Except Failure Value}
    (ended : i.call n μ name args = some (r, j, ν)) (late : j.machine.timer.Overdue i.clock ms) :
    (∃ missed, r = .error (.deadline missed)) ∨ r = .error (.noSuchFunction name) := by
  let m : Machine (Monitors ω) :=
    { i.machine.withMonitor μ with store := (args i.machine.store).2 }
  have agree := Alarm.deadline_agree limited ascends n
  have call := Alarm.minds_callWith i.setting agree i.program.script trivial name
    (args i.machine.store).1 (m := m) (fun _ _ _ => trivial) (Timer.not_overdue_start ascends _)
  rcases call with absent | minds
  · have same := (act_failed (μ := μ) (x := fun env => do
      let vs ← Action.edit args
      env.callGlobal n name vs) absent).symm.trans ended
    cases same
    exact .inr rfl
  · exact .inl (deadline_of_act minds ended late)

end

end Interpreter

end

end Footprint
