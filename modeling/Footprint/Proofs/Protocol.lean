import Footprint.Machine.Run
import Footprint.Proofs.RunRelation

set_option autoImplicit false

/-!
Protocols: what may happen to the state of a listener while a frame runs. A protocol that admits the
single events admits whole runs. A computation in a frame leaves the frames below as they are, and
of its own frame it changes nothing but the line and whether an exception has been reported.
-/

namespace Footprint

section

variable {σ α β : Type}

theorem modify_push (stack : Array Frame) (f : Frame) (u : Frame → Frame) :
    (stack.push f).modify ((stack.push f).size - 1) u = stack.push (u f) := by
  apply Array.ext
  · simp
  · intro i hi hi'
    simp only [Array.getElem_modify, Array.size_push, Nat.add_sub_cancel, Array.getElem_push]
    split
    · next h => simp [← h]
    · next h =>
      have hlt : i < stack.size := by
        rw [Array.size_push] at hi'
        omega
      simp [hlt]

/-! ### Forgetting a name -/

section

variable (m : Machine σ) (name : String)

theorem forget_stack : (m.forget name).stack = m.stack := by
  rw [Machine.forget_eq]
  split <;> rfl

theorem forget_handling : (m.forget name).handling = m.handling := by
  rw [Machine.forget_eq]
  split <;> rfl

theorem forget_monitor : (m.forget name).monitor = m.monitor := by
  rw [Machine.forget_eq]
  split <;> rfl

theorem forget_timer : (m.forget name).timer = m.timer := by
  rw [Machine.forget_eq]
  split <;> rfl

theorem forget_functions : (m.forget name).store.functions = m.store.functions := by
  rw [Machine.forget_eq]
  split
  · next e he => exact Store.keeps_unassign he m.store
  · rfl

end

namespace Setting

/-- What the listener answers to an event, and its state afterwards. -/
def hear (env : Setting σ) (frame : Frame) (depth : Nat) (e : Event) (s : σ) :
    Except String Control × σ :=
  match env.listener with
  | some l => if e = .call || frame.traced then l.hear (frame.info depth) e s else (.ok .proceed, s)
  | none => (.ok .proceed, s)

theorem ask_eq_hear (env : Setting σ) (e : Event) (m : Machine σ) :
    env.ask e m =
      match m.stack.back? with
      | some f =>
        match env.hear f m.stack.size e m.monitor with
        | (.ok c, monitor) => .done c { m with monitor }
        | (.error text, monitor) => .failed (.listener text m.pos) { m with monitor }
      | none => .done .proceed m := by
  rw [ask_apply]
  unfold hear
  cases env.listener with
  | none => cases m.stack.back? <;> rfl
  | some l =>
    cases m.stack.back? with
    | none => rfl
    | some f =>
      dsimp only
      split
      · rfl
      · rfl

theorem ask_push (env : Setting σ) (e : Event) {m : Machine σ} {stack : Array Frame} {frame : Frame}
    (h : m.stack = stack.push frame) :
    env.ask e m =
      match env.hear frame (stack.size + 1) e m.monitor with
      | (.ok c, monitor) => .done c { m with monitor }
      | (.error text, monitor) => .failed (.listener text m.pos) { m with monitor } := by
  have hback : m.stack.back? = some frame := by rw [h, Array.back?_push]
  have hsize : m.stack.size = stack.size + 1 := by rw [h, Array.size_push]
  rw [ask_eq_hear, hback, hsize]

theorem tell_push (env : Setting σ) (e : Event) {m : Machine σ} {stack : Array Frame}
    {frame : Frame} (h : m.stack = stack.push frame) :
    let s := (env.hear frame (stack.size + 1) e m.monitor).2
    env.tell e m = .done () { m with monitor := s } ∨
      ∃ text, env.tell e m = .failed (.listener text m.pos) { m with monitor := s } := by
  rw [tell_apply, ask_push env e h]
  cases hc : env.hear frame (stack.size + 1) e m.monitor with
  | mk answer s =>
    cases answer with
    | ok c => exact .inl rfl
    | error text => exact .inr ⟨text, rfl⟩

section

variable {m : Machine σ} {stack : Array Frame} {frame : Frame} {e : Failure}

/-- The first exception that comes to a frame is told. -/
theorem report_first (env : Setting σ) (h : m.stack = stack.push frame)
    (first : (e.isCatchable && !frame.reported) = true) :
    let told : Machine σ :=
      { m with
        stack := stack.push { frame with reported := true }
        monitor := (env.hear frame (stack.size + 1) .exception m.monitor).2 }
    env.report e m = .done () told ∨
      ∃ text, env.report e m = .failed (.listener text m.pos) told := by
  have top : m.stack.back?.getD .top = frame := by rw [h, Array.back?_push, Option.getD_some]
  have marked : m.stack.modify (m.stack.size - 1) ({ · with reported := true }) =
      stack.push { frame with reported := true } := by
    rw [h, modify_push]
  simp only [Setting.report, Action.bind_apply, Action.frame, top, first, if_true,
    Action.modifyFrame, marked]
  have heard := env.tell_push .exception
    (m := { m with stack := stack.push { frame with reported := true } }) rfl
  exact heard

/-- After that, exceptions are not told, and failures that the script cannot catch never are. -/
theorem report_later (env : Setting σ) (h : m.stack = stack.push frame)
    (later : (e.isCatchable && !frame.reported) = false) : env.report e m = .done () m := by
  have top : m.stack.back?.getD .top = frame := by rw [h, Array.back?_push, Option.getD_some]
  simp only [Setting.report, Action.bind_apply, Action.frame, top, later]
  rfl

end

end Setting

/-- After this answer to its call a frame goes on being traced. -/
def staysTraced : Except String Control → Bool
  | .ok .detach => false
  | _ => true

/-- The frame is one of the code object. -/
def Code.Runs (c : Code) (f : Frame) : Prop := f.name = c.name ∧ f.code = c.id

theorem Code.Begins.runs {c : Code} {f : Frame} (h : c.Begins f) : c.Runs f := by
  cases h <;> exact ⟨rfl, rfl⟩

theorem Code.Begins.traced {c : Code} {f : Frame} (h : c.Begins f) : f.traced = true := by
  cases h <;> rfl

theorem Code.Begins.unreported {c : Code} {f : Frame} (h : c.Begins f) : f.reported = false := by
  cases h <;> rfl

/-- How far a frame has come. -/
structure Progress (σ : Type) where
  line : Nat
  /-- The exception on its way has been told. -/
  reported : Bool
  /-- The state of the listener. -/
  state : σ

/-- What may happen to the state of a listener. -/
structure Protocol (σ : Type) where
  known : Code → Prop
  /-- The exceptions that may be handled, and the number of frames. -/
  stage : List Failure → Nat → Prop
  /-- In a frame of the code object, traced or not, at a depth. -/
  part : Code → Bool → Nat → Progress σ → Progress σ → Prop
  /-- In a whole activation at a depth. -/
  whole : Nat → σ → σ → Prop
  /-- In what has run so far. -/
  cut : σ → σ → Prop

/-- The protocol admits what is told in a setting, exceptions apart. -/
structure Protocol.Admits (P : Protocol σ) (env : Setting σ) : Prop where
  known_of_defines {c d : Code} : P.known c → c.Defines d → P.known d
  stage_push {hs : List Failure} {d : Nat} :
    P.stage hs d → d < env.limits.maxDepth → P.stage hs (d + 1)
  refl (c : Code) (t : Bool) (d : Nat) (p : Progress σ) : P.part c t d p p
  trans {c : Code} {t : Bool} {d : Nat} {p q r : Progress σ} :
    P.part c t d p q → P.part c t d q r → P.part c t d p r
  line {c : Code} {f : Frame} {n : Nat} {hs : List Failure} {d : Nat} (s : σ) : P.known c →
    P.stage hs d → c.Runs f → c.Tells n →
    P.part c f.traced d ⟨f.line, f.reported, s⟩
      ⟨n, f.reported, (env.hear { f with line := n } d .line s).2⟩
  activation {c : Code} {f : Frame} {hs : List Failure} {d : Nat} {s s' : σ}
    {answer : Except String Control} {line : Nat} {reported : Bool} {s'' : σ} : P.known c →
    P.stage hs d → c.Begins f → env.hear f d .call s = (answer, s') →
    P.part c (staysTraced answer) d ⟨f.line, false, s'⟩ ⟨line, reported, s''⟩ →
    P.whole d s (env.hear { f with line, traced := staysTraced answer } d .ret s'').2
  inner {c : Code} {t : Bool} {d n : Nat} {reported : Bool} {s s' : σ} :
    P.whole (d + 1) s s' → P.part c t d ⟨n, reported, s⟩ ⟨n, reported, s'⟩
  cut_part {c : Code} {t : Bool} {d : Nat} {p q : Progress σ} :
    P.part c t d p q → P.cut p.state q.state
  cut_call {hs : List Failure} (f : Frame) {d : Nat} (s : σ) : P.stage hs d →
    P.cut s (env.hear f d .call s).2
  cut_trans {s t u : σ} : P.cut s t → P.cut t u → P.cut s u

/-- The protocol admits that an exception is told, and that one is caught. -/
structure Protocol.AdmitsExceptions (P : Protocol σ) (env : Setting σ) : Prop where
  told {c : Code} {f : Frame} {hs : List Failure} {d : Nat} (s : σ) : P.known c → P.stage hs d →
    c.Runs f → f.reported = false →
    P.part c f.traced d ⟨f.line, false, s⟩ ⟨f.line, true, (env.hear f d .exception s).2⟩
  caught (c : Code) (t : Bool) (d n : Nat) (reported : Bool) (s : σ) :
    P.part c t d ⟨n, reported, s⟩ ⟨n, false, s⟩

namespace Protocol

open Footprint.Action

variable {P : Protocol σ} {env : Setting σ} {c : Code}

/-- All functions in the store are known. -/
def Holds (P : Protocol σ) (s : Store) : Prop :=
  ∀ r f, s.function? r = some f → P.known (.function f.function)

/-- The machine is in a frame of the code object. -/
structure Ready (P : Protocol σ) (c : Code) (m : Machine σ) : Prop where
  known : P.known c
  stage : P.stage m.handling m.stack.size
  functions : P.Holds m.store
  frame : ∃ (stack : Array Frame) (f : Frame), m.stack = stack.push f ∧ c.Runs f

/-- What a computation in a frame of the code object may come to when it ends. -/
structure Passes (P : Protocol σ) (c : Code) (m m' : Machine σ) : Prop where
  functions : P.Holds m'.store
  handling : m'.handling = m.handling
  frame : ∃ (stack : Array Frame) (f : Frame) (line : Nat) (reported : Bool),
    m.stack = stack.push f ∧ m'.stack = stack.push { f with line, reported } ∧
    P.part c f.traced (stack.size + 1) ⟨f.line, f.reported, m.monitor⟩
      ⟨line, reported, m'.monitor⟩

/-- What a computation in a frame of the code object comes to. -/
def Leaves (P : Protocol σ) (c : Code) (m : Machine σ) : Ending σ α → Prop
  | .done _ m' | .failed _ m' => P.Passes c m m'
  | .unfinished m' => P.cut m.monitor m'.monitor

/-- In a frame of the code object the computation follows the protocol. -/
def Follows (P : Protocol σ) (c : Code) (x : Action σ α) : Prop :=
  ∀ ⦃m⦄, P.Ready c m → P.Leaves c m (x m)

/-- The protocol at some stages only. -/
def atStage (P : Protocol σ) (stage : List Failure → Nat → Prop) : Protocol σ := { P with stage }

/-- The protocol in which one more exception is being handled. -/
def under (P : Protocol σ) (e : Failure) : Protocol σ :=
  P.atStage fun hs d => ∃ rest, hs = e :: rest ∧ P.stage rest d

theorem holds_of_functions_eq {s s' : Store} (h : P.Holds s) (he : s'.functions = s.functions) :
    P.Holds s' := fun r f hf => h r f (by rwa [Store.function?, ← he])

section

variable {m m' m'' : Machine σ}

theorem Passes.ready (h : P.Passes c m m') (hm : P.Ready c m) : P.Ready c m' := by
  obtain ⟨stack, f, line, reported, hstack, hstack', -⟩ := h.frame
  obtain ⟨rest, g, hg, hruns⟩ := hm.frame
  obtain ⟨rfl, rfl⟩ := Array.push_eq_push.1 (hstack.symm.trans hg)
  have hsize : m'.stack.size = m.stack.size := by
    rw [hstack, hstack', Array.size_push, Array.size_push]
  exact ⟨hm.known, by rw [h.handling, hsize]; exact hm.stage, h.functions, stack, _, hstack', hruns⟩

variable (admits : P.Admits env)

include admits

/-- A step that nothing of the listener or the frames depends on. -/
theorem Ready.still (hm : P.Ready c m) (stack : m'.stack = m.stack)
    (handling : m'.handling = m.handling) (monitor : m'.monitor = m.monitor)
    (functions : m'.store.functions = m.store.functions) : P.Passes c m m' := by
  obtain ⟨rest, f, hf, -⟩ := hm.frame
  refine ⟨holds_of_functions_eq hm.functions functions, handling, ?_⟩
  refine ⟨rest, f, f.line, f.reported, hf, stack.trans hf, ?_⟩
  rw [monitor]
  exact admits.refl c _ _ _

theorem Passes.trans (h : P.Passes c m m') (h' : P.Passes c m' m'') : P.Passes c m m'' := by
  obtain ⟨stack, f, line, reported, hstack, hstack', hpart⟩ := h.frame
  obtain ⟨rest, g, line', reported', hrest, hrest', hpart'⟩ := h'.frame
  obtain ⟨rfl, rfl⟩ := Array.push_eq_push.1 (hstack'.symm.trans hrest)
  exact ⟨h'.functions, h'.handling.trans h.handling, stack, f, line', reported', hstack, hrest',
    admits.trans hpart hpart'⟩

theorem Passes.cut (h : P.Passes c m m') : P.cut m.monitor m'.monitor := by
  obtain ⟨stack, f, line, reported, -, -, hpart⟩ := h.frame
  exact admits.cut_part hpart

theorem Passes.leaves (h : P.Passes c m m') {r : Ending σ α} (hr : P.Leaves c m' r) :
    P.Leaves c m r := by
  cases r with
  | done _ n | failed _ n => exact h.trans admits hr
  | unfinished n => exact admits.cut_trans (h.cut admits) hr

theorem Leaves.bind {x : Action σ α} {f : α → Action σ β} (hm : P.Ready c m)
    (hx : P.Leaves c m (x m)) (hf : ∀ a, P.Follows c (f a)) : P.Leaves c m ((x >>= f) m) := by
  rw [bind_apply]
  cases hr : x m with
  | done a m' =>
    rw [hr] at hx
    exact Passes.leaves admits hx (hf a (Passes.ready hx hm))
  | failed f m' | unfinished m' =>
    rw [hr] at hx
    exact hx

end

namespace Follows

/-- What a computation comes to does not depend on the stages at which it is looked at. -/
theorem restage {stage stage' : List Failure → Nat → Prop} {x : Action σ α}
    (hx : (P.atStage stage).Follows c x) (h : ∀ hs d, stage' hs d → stage hs d) :
    (P.atStage stage').Follows c x := by
  intro m hm
  have leaves := hx ⟨hm.known, h _ _ hm.stage, hm.functions, hm.frame⟩
  cases hr : x m with
  | done a m' | failed g m' =>
    rw [hr] at leaves
    exact ⟨leaves.functions, leaves.handling, leaves.frame⟩
  | unfinished m' =>
    rw [hr] at leaves
    exact leaves

section

variable (admits : P.Admits env)

include admits

theorem observe (f : Store → Option (Except Failure α)) : P.Follows c (observe f) := by
  intro m hm
  have same : P.Passes c m m := hm.still admits rfl rfl rfl rfl
  unfold Action.observe
  split
  · exact same
  · exact same
  · exact same.cut admits

theorem pure (a : α) : P.Follows c (pure a) := fun _ hm => hm.still admits rfl rfl rfl rfl

theorem bind {x : Action σ α} {f : α → Action σ β} (hx : P.Follows c x)
    (hf : ∀ a, P.Follows c (f a)) : P.Follows c (x >>= f) :=
  fun _ hm => (hx hm).bind admits hm hf

theorem editAt (p : Position) {plan : Store → Except Fault (Edit α)}
    (keeps : ∀ s e, plan s = .ok e → (e s).2.functions = s.functions) :
    P.Follows c (editAt p plan) := by
  intro m hm
  unfold Action.editAt
  split
  · next e he =>
    rw [edit_apply]
    exact hm.still admits rfl rfl rfl (keeps m.store e he)
  · exact hm.still admits rfl rfl rfl rfl

/-- Making a function that the code object defines. -/
theorem newFunction {head : FunctionHead} {body : List Stmt} (defaults : List Value)
    (scope : Option ScopeRef) (owned : c.Owns (.function head body)) :
    P.Follows c (edit (Store.newFunction ⟨⟨head, body⟩, defaults, scope⟩)) := by
  intro m hm
  obtain ⟨rest, f, hf, -⟩ := hm.frame
  refine ⟨fun r g hg => ?_, rfl, rest, f, f.line, f.reported, hf, hf, admits.refl c _ _ _⟩
  have hpush : (m.store.functions.push ⟨⟨head, body⟩, defaults, scope⟩)[r.index]? = some g := hg
  rw [Array.getElem?_push] at hpush
  split at hpush
  · cases hpush
    exact admits.known_of_defines hm.known (.function owned)
  · exact hm.functions r g hpush

theorem reraise (p : Position) : P.Follows c (reraise p) := by
  intro m hm
  have same : P.Passes c m m := hm.still admits rfl rfl rfl rfl
  unfold Action.reraise
  split
  · exact same
  · exact same

theorem result : P.Follows c result := by
  intro m hm
  rw [result_apply]
  split
  · exact hm.still admits rfl rfl rfl rfl
  · exact hm.still admits rfl rfl rfl rfl

theorem proceed {x y : Action σ Unit} {h : Failure → Action σ Unit} (hx : P.Follows c x)
    (hy : P.Follows c y) (hh : ∀ f, P.Follows c (h f)) : P.Follows c (proceed x y h) := by
  intro m hm
  have passed := hx hm
  unfold Action.proceed
  cases hr : x m with
  | done a m' =>
    rw [hr] at passed
    dsimp only
    split
    · exact passed.leaves admits (hy (passed.ready hm))
    · exact passed
  | failed f m' =>
    rw [hr] at passed
    exact passed.leaves admits (hh f (passed.ready hm))
  | unfinished m' =>
    rw [hr] at passed
    exact passed

theorem round {x y : Action σ Unit} (hx : P.Follows c x) (hy : P.Follows c y) :
    P.Follows c (round x y) := by
  intro m hm
  have passed := hx hm
  unfold Action.round
  cases hr : x m with
  | done a m' =>
    rw [hr] at passed
    have hm' := passed.ready hm
    have arrived : P.Passes c m { m' with jump := .none } :=
      passed.trans admits (hm'.still admits rfl rfl rfl rfl)
    dsimp only
    cases m'.jump with
    | none => exact passed.leaves admits (hy hm')
    | cont => exact arrived.leaves admits (hy (arrived.ready hm))
    | brk => exact arrived
    | ret => exact passed
  | failed f m' | unfinished m' =>
    rw [hr] at passed
    exact passed

theorem putAside {x : Action σ Unit} (hx : P.Follows c x) {pending : Machine σ → Ending σ Unit}
    (hp : P.Follows c pending) : P.Follows c (putAside x pending) := by
  intro m hm
  have aside : P.Passes c m { m with jump := .none, returned := .none } :=
    hm.still admits rfl rfl rfl rfl
  have passed := aside.leaves admits (hx (aside.ready hm))
  rw [putAside_apply]
  cases hr : x { m with jump := .none, returned := .none } with
  | done a m' =>
    rw [hr] at passed
    have hm' := Passes.ready passed hm
    dsimp only
    split
    · have back : P.Passes c m { m' with jump := m.jump, returned := m.returned } :=
        passed.trans admits (hm'.still admits rfl rfl rfl rfl)
      exact back.leaves admits (hp (back.ready hm))
    · exact passed
  | failed f m' | unfinished m' =>
    rw [hr] at passed
    exact passed

theorem lastly {x y : Action σ Unit} (hx : P.Follows c x) (hy : P.Follows c y) :
    P.Follows c (lastly x y) := by
  intro m hm
  have passed := hx hm
  unfold Action.lastly
  cases hr : x m with
  | done a m' =>
    rw [hr] at passed
    have ended : P.Follows c (Ending.done (σ := σ) ()) :=
      fun _ hn => hn.still admits rfl rfl rfl rfl
    exact passed.leaves admits (hy.putAside admits ended (passed.ready hm))
  | failed f m' =>
    rw [hr] at passed
    have ended : P.Follows c (Ending.failed (σ := σ) (α := Unit) f) :=
      fun _ hn => hn.still admits rfl rfl rfl rfl
    exact passed.leaves admits (hy.putAside admits ended (passed.ready hm))
  | unfinished m' =>
    rw [hr] at passed
    exact passed

theorem backAt {x : Action σ α} (hx : P.Follows c x) (p : Position) :
    P.Follows c (backAt p x) := by
  intro m hm
  have passed := hx hm
  unfold Action.backAt
  cases hr : x m with
  | done a m' | failed f m' =>
    rw [hr] at passed
    exact passed.trans admits ((passed.ready hm).still admits rfl rfl rfl rfl)
  | unfinished m' =>
    rw [hr] at passed
    exact passed

theorem setJump (j : Jump) : P.Follows c (setJump j) := fun _ hm => hm.still admits rfl rfl rfl rfl

theorem giveBack (v : Value) : P.Follows c (giveBack v) :=
  fun _ hm => hm.still admits rfl rfl rfl rfl

/-! ### Except clauses -/

omit admits in
theorem forgetReport (exceptions : P.AdmitsExceptions env) :
    P.Follows c (modifyFrame ({ · with reported := false })) := by
  intro m hm
  obtain ⟨stack, f, hf, -⟩ := hm.frame
  refine ⟨hm.functions, rfl, stack, f, f.line, false, hf, ?_, exceptions.caught c _ _ _ _ _⟩
  dsimp only
  rw [hf, modify_push]

omit admits in
/-- The handler of an exception follows a protocol in which the exception is being handled. -/
theorem whileHandling {x : Action σ Unit} (e : Failure)
    (hx : (P.under e).Follows c x) : P.Follows c (whileHandling e x) := by
  intro m hm
  have ready : (P.under e).Ready c { m with handling := e :: m.handling } :=
    ⟨hm.known, ⟨_, rfl, hm.stage⟩, hm.functions, hm.frame⟩
  have passed := hx ready
  have back {m' : Machine σ} (h : (P.under e).Passes c { m with handling := e :: m.handling } m') :
      P.Passes c m { m' with handling := m'.handling.tail } :=
    ⟨h.functions, by rw [h.handling]; rfl, h.frame⟩
  unfold Action.whileHandling
  cases hr : x { m with handling := e :: m.handling } with
  | done a m' | failed g m' =>
    rw [hr] at passed
    exact back passed
  | unfinished m' =>
    rw [hr] at passed
    exact passed

theorem thenForget {x : Action σ Unit} (hx : P.Follows c x) (name : Option String) :
    P.Follows c (thenForget name x) := by
  cases name with
  | none => exact hx
  | some name =>
    intro m hm
    have passed := hx hm
    unfold Action.thenForget
    have forget {m' : Machine σ} (h : P.Passes c m m') : P.Passes c m (m'.forget name) :=
      h.trans admits ((h.ready hm).still admits (forget_stack m' name) (forget_handling m' name)
        (forget_monitor m' name) (forget_functions m' name))
    dsimp only
    cases hr : x m with
    | done a m' | failed f m' =>
      rw [hr] at passed
      exact forget passed
    | unfinished m' =>
      rw [hr] at passed
      exact passed

/-! ### Events -/

theorem checkDeadline : P.Follows c env.checkDeadline := by
  intro m hm
  obtain ⟨timer, h | ⟨missed, h⟩⟩ := env.checkDeadline_apply m <;> rw [h]
  · exact hm.still admits rfl rfl rfl rfl
  · exact hm.still admits rfl rfl rfl rfl

theorem markLine {n : Nat} (htells : c.Tells n) : P.Follows c (env.markLine n) := by
  refine (checkDeadline admits).bind admits fun _ m hm => ?_
  obtain ⟨stack, f, hf, hruns⟩ := hm.frame
  have hstage : P.stage m.handling (stack.size + 1) := by
    have h := hm.stage
    rwa [hf, Array.size_push] at h
  have hmark : ({ m with stack := m.stack.modify (m.stack.size - 1) ({ · with line := n }) } :
      Machine σ).stack = stack.push { f with line := n } := by
    dsimp only
    rw [hf, modify_push]
  have told := admits.line m.monitor hm.known hstage hruns htells
  rw [bind_apply]
  simp only [modifyFrame]
  rcases env.tell_push .line hmark with h | ⟨text, h⟩ <;> rw [h]
  · exact ⟨hm.functions, rfl, stack, f, n, f.reported, hf, hmark, told⟩
  · exact ⟨hm.functions, rfl, stack, f, n, f.reported, hf, hmark, told⟩

theorem report (exceptions : P.AdmitsExceptions env) (e : Failure) :
    P.Follows c (env.report e) := by
  intro m hm
  obtain ⟨stack, f, hf, hruns⟩ := hm.frame
  have hstage : P.stage m.handling (stack.size + 1) := by
    have h := hm.stage
    rwa [hf, Array.size_push] at h
  by_cases first : (e.isCatchable && !f.reported) = true
  · have unreported : f.reported = false := by
      rw [Bool.and_eq_true, Bool.not_eq_true'] at first
      exact first.2
    have told := exceptions.told m.monitor hm.known hstage hruns unreported
    rw [← unreported] at told
    rcases env.report_first hf first with h | ⟨text, h⟩ <;> rw [h]
    · exact ⟨hm.functions, rfl, stack, f, f.line, true, hf, rfl, told⟩
    · exact ⟨hm.functions, rfl, stack, f, f.line, true, hf, rfl, told⟩
  · rw [env.report_later hf (Bool.not_eq_true _ ▸ first)]
    exact hm.still admits rfl rfl rfl rfl

end

end Follows

/-! ### Frames -/

/-- What a frame comes to that begins on a machine and ends again: the frames are those from before,
and the listener has been told a whole activation, or nothing if there could be no further frame. -/
structure Returns (P : Protocol σ) (limits : Limits) (m m' : Machine σ) : Prop where
  functions : P.Holds m'.store
  stack : m'.stack = m.stack
  handling : m'.handling = m.handling
  monitor : limits.maxDepth ≤ m.stack.size ∧ m'.monitor = m.monitor ∨
    P.whole (m.stack.size + 1) m.monitor m'.monitor

section

variable (admits : P.Admits env) {f : Frame} {m : Machine σ}

/-- The machine after the call of a new frame has been told. -/
def opened (env : Setting σ) (f : Frame) (m : Machine σ) : Machine σ :=
  let heard := env.hear f (m.stack.size + 1) .call m.monitor
  { m with stack := m.stack.push { f with traced := staysTraced heard.1 }, monitor := heard.2 }

theorem announce_push (htraced : f.traced = true) :
    env.announce { m with stack := m.stack.push f } = .done () (opened env f m) ∨
      ∃ e, env.announce { m with stack := m.stack.push f } = .failed e (opened env f m) := by
  unfold Setting.announce opened
  rw [bind_apply, env.ask_push .call rfl]
  have hf : { f with traced := true } = f := by rw [← htraced]
  cases hc : env.hear f (m.stack.size + 1) .call m.monitor with
  | mk answer s =>
    cases answer with
    | error text =>
      refine .inr ⟨.listener text m.pos, ?_⟩
      simp only [staysTraced, hf]
    | ok control =>
      refine .inl ?_
      cases control with
      | proceed =>
        simp only [staysTraced, hf]
        rfl
      | detach =>
        simp only [staysTraced, if_true, modifyFrame, modify_push]

/-- What a frame comes to that begins on a machine. -/
def Concludes (P : Protocol σ) (limits : Limits) (m : Machine σ) : Ending σ α → Prop
  | .done _ m' | .failed _ m' => P.Returns limits m m'
  | .unfinished m' => P.cut m.monitor m'.monitor

theorem Concludes.ends {limits : Limits} {r : Ending σ α} (h : P.Concludes limits m r) :
    r.Ends (P.Returns limits m) := by
  cases r with
  | done a m' | failed e m' => exact h
  | unfinished m' => trivial

include admits

/-- The end of a frame, told and taken off the stack. -/
theorem finish_concludes (known : P.known c) (begins : c.Begins f)
    (stage : P.stage m.handling (m.stack.size + 1)) {r : Ending σ Value}
    (hr : P.Leaves c (opened env f m) r) : P.Concludes env.limits m (env.finish r) := by
  have returned {m' : Machine σ} (h : P.Passes c (opened env f m) m') :
      ∃ m'', P.Returns env.limits m { m'' with stack := m''.stack.pop } ∧
        (env.tell .ret { m' with jump := .none } = .done () m'' ∨
          ∃ text, env.tell .ret { m' with jump := .none } =
            .failed (.listener text m'.pos) m'') := by
    obtain ⟨stack, g, line, reported, hstack, hstack', hpart⟩ := h.frame
    obtain ⟨rfl, rfl⟩ := Array.push_eq_push.1 hstack
    rw [begins.unreported] at hpart
    have hstop : ({ m' with jump := .none } : Machine σ).stack = _ := hstack'
    refine ⟨_, ?_, env.tell_push .ret hstop⟩
    refine ⟨h.functions, ?_, h.handling, .inr ?_⟩
    · dsimp only
      rw [hstack', Array.pop_push]
    · exact admits.activation (f := f) known stage begins rfl hpart
  unfold Setting.finish
  cases r with
  | done v m' =>
    obtain ⟨m'', back, h | ⟨text, h⟩⟩ := returned hr
    · simp only [h]
      exact back
    · simp only [h]
      exact back
  | failed e m' =>
    obtain ⟨m'', back, h | ⟨text, h⟩⟩ := returned hr
    · simp only [h]
      exact back
    · simp only [h]
      exact back
  | unfinished m' => exact admits.cut_trans (admits.cut_call f _ stage) hr

theorem markHeader_leaves (begins : c.Begins f) (ready : P.Ready c (opened env f m)) :
    P.Leaves c (opened env f m) (env.markHeader (opened env f m)) := by
  have top : (opened env f m).stack.back?.getD .top =
      { f with traced := staysTraced (env.hear f (m.stack.size + 1) .call m.monitor).1 } := by
    simp [opened]
  unfold Setting.markHeader
  simp only [bind_apply, frame, top]
  cases begins with
  | classBody head body scope => exact Follows.markLine admits .header ready
  | top s => exact ready.still admits rfl rfl rfl rfl
  | function g locals => exact ready.still admits rfl rfl rfl rfl

/-- A frame of a known code object, whose statements follow the protocol, tells a whole
activation. -/
theorem inFrame_concludes (known : P.known c) (begins : c.Begins f)
    (stage : P.stage m.handling m.stack.size) (holds : P.Holds m.store) {x : Action σ Unit}
    (hx : P.Follows c x) : P.Concludes env.limits m (env.inFrame f x m) := by
  unfold Setting.inFrame
  split
  · exact ⟨holds, rfl, rfl, .inl ⟨by assumption, rfl⟩⟩
  · next room =>
    have stage' := admits.stage_push stage (Nat.lt_of_not_le room)
    have ready : P.Ready c (opened env f m) := by
      refine ⟨known, ?_, holds, m.stack, _, rfl, begins.runs⟩
      simpa [opened] using stage'
    apply finish_concludes admits known begins stage'
    rw [bind_apply]
    simp only [push]
    rw [bind_apply]
    rcases announce_push begins.traced with h | ⟨e, h⟩ <;> rw [h]
    · exact (markHeader_leaves admits begins ready).bind admits ready fun _ =>
        hx.bind admits fun _ => Follows.result admits
    · exact ready.still admits rfl rfl rfl rfl

theorem Returns.passes {m' : Machine σ} (ready : P.Ready c m) (h : P.Returns env.limits m m') :
    P.Passes c m m' := by
  obtain ⟨stack, g, hg, -⟩ := ready.frame
  refine ⟨h.functions, h.handling, stack, g, g.line, g.reported, hg, h.stack.trans hg, ?_⟩
  rcases h.monitor with ⟨-, same⟩ | told
  · rw [same]
    exact admits.refl c _ _ _
  · rw [hg, Array.size_push] at told
    exact admits.inner told

theorem inFrame_follows {d : Code} (known : P.known d) (begins : d.Begins f) {x : Action σ Unit}
    (hx : P.Follows d x) : P.Follows c (env.inFrame f x) := by
  intro m hm
  have h : P.Concludes env.limits m (env.inFrame f x m) :=
    inFrame_concludes admits known begins hm.stage hm.functions hx
  cases hr : env.inFrame f x m with
  | done v m' | failed e m' =>
    rw [hr] at h
    exact Returns.passes admits hm h
  | unfinished m' =>
    rw [hr] at h
    exact h

/-! ### Runs -/

omit admits in
/-- The computations that follow the protocol. -/
def relation (P : Protocol σ) : RunRelation σ σ where
  known := P.known
  expr c _ x _ := P.Follows c x
  stmt c x _ := P.Follows c x
  final c x _ := P.Follows c x

theorem closed : P.relation.Closed env env where
  pure _ _ := .pure admits
  bind := .bind admits
  observe _ := .observe admits
  editAt _ := .editAt admits
  newFunction := .newFunction admits
  frameKind _ _ hm := hm.still admits rfl rfl rfl rfl
  getPos _ _ hm := hm.still admits rfl rfl rfl rfl
  setPos _ _ _ hm := hm.still admits rfl rfl rfl rfl
  write _ _ _ hm := hm.still admits rfl rfl rfl rfl
  reraise _ := .reraise admits
  checkDeadline _ := .checkDeadline admits
  markLine := .markLine admits
  lookup r _ _ h := by
    intro m hm
    have found := h (m.store.function? r) (hm.functions r) hm
    exact found
  inFrame known begins h := inFrame_follows admits known begins h
  backAt p h := .backAt admits h p
  known_classBody known owned := admits.known_of_defines known (.classBody owned)
  ofExpr h := h
  andThen := .bind admits
  setJump _ := .setJump admits
  giveBack _ := .giveBack admits
  proceed hx hy hh _ := .proceed admits hx hy hh
  round := .round admits
  lastly := .lastly admits

variable (exceptions : P.AdmitsExceptions env)

include exceptions

theorem reporting {x : Action σ Unit} (hx : P.Follows c x) : P.Follows c (env.reporting x) :=
  (closed admits).reporting (c := c) (y := x) (Follows.report admits exceptions) hx

theorem clause (e : Failure) (name : Option String) {x : Action σ Unit}
    (hx : (P.under e).Follows c x) : P.Follows c (clause e name x) :=
  (Follows.forgetReport exceptions).bind admits fun _ =>
    (((closed admits).steps c).bindCaught e name).bind admits fun _ =>
      (Follows.whileHandling e hx).thenForget admits name

omit exceptions

variable {d : Calls σ}

/-- A run of a script, if all that is asked for follows the protocol. -/
theorem runWith_concludes (agree : P.relation.Agree d d) (script : Script)
    (known : P.known (.top script)) (stage : P.stage m.handling m.stack.size)
    (holds : P.Holds m.store) : P.Concludes env.limits m (env.runWith d script m) := by
  have body : P.Follows (.top script) (d.block script.body) :=
    agree.run known _ (Code.allows_body (.top script))
  let begun : Machine σ := { m with timer := m.timer.start env.clock, jump := .none }
  have h : P.Concludes env.limits begun (env.inFrame .top (d.block script.body) begun) :=
    inFrame_concludes (m := begun) admits known (.top script) stage holds body
  change P.Concludes env.limits m ((discard (env.inFrame .top (d.block script.body))) begun)
  rw [discard_apply]
  cases hr : env.inFrame .top (d.block script.body) begun with
  | done v m' | failed e m' =>
    rw [hr] at h
    exact ⟨h.functions, h.stack, h.handling, h.monitor⟩
  | unfinished m' =>
    rw [hr] at h
    exact h

/-- What a call by the host comes to when it ends. Its own frame tells nothing. -/
structure Answers (P : Protocol σ) (c : Code) (m m' : Machine σ) : Prop where
  functions : P.Holds m'.store
  stack : m'.stack = m.stack
  handling : m'.handling = m.handling
  monitor : ∃ line reported,
    P.part c false (m.stack.size + 1) ⟨0, false, m.monitor⟩ ⟨line, reported, m'.monitor⟩

omit admits d in
/-- What a call by the host comes to. -/
def ConcludesCall (P : Protocol σ) (c : Code) (m : Machine σ) : Ending σ Value → Prop
  | .done _ m' | .failed _ m' => P.Answers c m m'
  | .unfinished m' => P.cut m.monitor m'.monitor

omit admits d in
theorem ConcludesCall.ends {r : Ending σ Value} (h : P.ConcludesCall c m r) :
    r.Ends (P.Answers c m) := by
  cases r with
  | done a m' | failed e m' => exact h
  | unfinished m' => trivial

/-- A call of a global function, if all that is asked for follows the protocol. -/
theorem callGlobal_concludes (agree : P.relation.Agree d d) (script : Script)
    (known : P.known (.top script)) (stage : P.stage m.handling (m.stack.size + 1))
    (holds : P.Holds m.store) (name : String) (args : List Value) :
    P.ConcludesCall (.top script) m (env.callWith d name args m) := by
  unfold Setting.callWith
  rw [bind_apply]
  simp only [Action.read, Action.observe]
  cases m.store.callable? name with
  | none => exact ⟨holds, rfl, rfl, 0, false, admits.refl _ _ _ _⟩
  | some callee =>
    let below : Machine σ :=
      { m with stack := m.stack.push .host, timer := m.timer.start env.clock }
    have ready : P.Ready (.top script) below :=
      ⟨known, by simpa [below] using stage, holds, m.stack, .host, rfl, rfl, rfl⟩
    have h : P.Leaves (.top script) below (d.value (.call callee args m.pos) below) :=
      agree.value known (.call callee args m.pos) ready
    have back {m' : Machine σ} (h : P.Passes (.top script) below m') :
        P.Answers (.top script) m { m' with stack := m'.stack.pop, jump := .none } := by
      obtain ⟨stack, f, line, reported, hstack, hstack', hpart⟩ := h.frame
      obtain ⟨rfl, rfl⟩ := Array.push_eq_push.1 hstack
      refine ⟨h.functions, ?_, h.handling, line, reported, hpart⟩
      dsimp only
      rw [hstack', Array.pop_push]
    change P.ConcludesCall (.top script) m
      (inHostFrame (d.value (.call callee args m.pos)) { m with timer := m.timer.start env.clock })
    unfold Action.inHostFrame
    dsimp only
    cases hr : d.value (.call callee args m.pos) below with
    | done v m' | failed e m' =>
      rw [hr] at h
      exact back h
    | unfinished m' =>
      rw [hr] at h
      exact h

omit d in
/-- In a protocol for which it does not matter what is being handled, and in how many frames. -/
theorem calls (exceptions : P.AdmitsExceptions env) (free : ∀ hs d, P.stage hs d) (n : Nat) :
    P.relation.Agree (env.calls n) (env.calls n) := by
  refine (closed admits).calls ⟨fun hx => ?reporting, fun e name _ _ hx => ?clause⟩ id n
  case reporting => exact reporting admits exceptions hx
  case clause => exact clause admits exceptions e name (hx.restage fun _ _ _ => free _ _)

end

/-! ### Properties of the listener's state -/

/-- The protocol in which a property of the listener's state is kept. -/
def preserving (known : Code → Prop) (stage : List Failure → Nat → Prop) (Q : σ → Prop) :
    Protocol σ where
  known := known
  stage := stage
  part _ _ _ p q := Q p.state → Q q.state
  whole _ s s' := Q s → Q s'
  cut s s' := Q s → Q s'

section

variable {known : Code → Prop} {stage : List Failure → Nat → Prop} {Q : σ → Prop}

/-- The property is kept when an event is told; a line that is told is one of a known code
object. -/
def KeptByHearing (env : Setting σ) (known : Code → Prop) (stage : List Failure → Nat → Prop)
    (Q : σ → Prop) : Prop :=
  ∀ f {hs d} e s, stage hs d →
    (e = .line → ∃ c, known c ∧ c.Runs f ∧ c.Tells f.line) → Q s → Q (env.hear f d e s).2

theorem preserving_exceptions (hear : KeptByHearing env known stage Q) :
    (preserving known stage Q).AdmitsExceptions env where
  told s _ stage _ _ := hear _ .exception s stage nofun
  caught _ _ _ _ _ _ := id

/-- It is enough that the property is kept when an event is told. -/
theorem preserving_admits (known_of_defines : ∀ {c d : Code}, known c → c.Defines d → known d)
    (stage_push : ∀ {hs d}, stage hs d → d < env.limits.maxDepth → stage hs (d + 1))
    (hear : KeptByHearing env known stage Q) : (preserving known stage Q).Admits env where
  known_of_defines := known_of_defines
  stage_push := stage_push
  refl _ _ _ _ := id
  trans h h' hs := h' (h hs)
  line {c} _ _ _ _ s known stage runs tells := hear _ .line s stage fun _ => ⟨c, known, runs, tells⟩
  activation := by
    rintro c f hs d s s' answer line reported s'' - stage - called part kept
    have opened := hear f .call s stage nofun kept
    rw [called] at opened
    exact hear _ .ret s'' stage nofun (part opened)
  inner h := h
  cut_part h := h
  cut_call f _ s stage := hear f .call s stage nofun
  cut_trans h h' hs := h' (h hs)

variable {m : Machine σ} (start : Q m.monitor)

include start

theorem Concludes.preserved {limits : Limits} {r : Ending σ α}
    (h : (preserving known stage Q).Concludes limits m r) : Q r.machine.monitor := by
  cases r with
  | done _ m' | failed _ m' =>
    rcases h.monitor with ⟨-, same⟩ | whole
    · exact same ▸ start
    · exact whole start
  | unfinished m' => exact h start

theorem ConcludesCall.preserved {r : Ending σ Value}
    (h : (preserving known stage Q).ConcludesCall c m r) : Q r.machine.monitor := by
  cases r with
  | done _ m' | failed _ m' =>
    obtain ⟨line, reported, part⟩ := h.monitor
    exact part start
  | unfinished m' => exact h start

end

end Protocol

end

end Footprint
