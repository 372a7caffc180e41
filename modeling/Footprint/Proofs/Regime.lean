import Footprint.Proofs.Nesting
import Footprint.Proofs.Protocol

set_option autoImplicit false

/-!
Regimes: what a store may hold while a script runs. Worlds say what has been made so far; what is
said of a value in a world goes on to hold in all worlds after it. A computation in a frame of a
code object starts in a world, ends in one after it, and says of its value what holds there.
-/

namespace Footprint

/-- The value has no part that lives in the store and no number of its own. -/
def Value.isPlain : Value → Bool
  | .none | .bool _ | .int _ | .float _ | .str _ | .range _ | .builtin _ | .exceptionType _ => true
  | _ => false

structure Regime (σ : Type) where
  World : Type
  /-- The second world is the first one or comes after it. -/
  le : World → World → Prop
  known : Code → Prop
  /-- The store and the state of the listener are as the world says. -/
  holds : World → Store → σ → Prop
  value : World → Value → Prop
  closure : World → Closure → Prop
  /-- What the code object defines is defined in the scope. -/
  scope : World → Code → Option ScopeRef → Prop
  /-- The code object is about to run in such a frame. -/
  fresh : World → Code → FrameKind → Prop
  /-- The code object runs in such a frame. -/
  frame : World → Code → FrameKind → Prop

namespace Regime

section

variable {σ α β : Type}

/-- From the store a world is reached, after the first one, that says what has come of the edit. -/
def Grants (R : Regime σ) (w : R.World) (s : Store) (μ : σ) (e : Edit α)
    (P : R.World → α → Prop) : Prop :=
  ∃ w', R.le w w' ∧ R.holds w' (e s).2 μ ∧ P w' (e s).1

/-- Nothing is said of the value. -/
def any (R : Regime σ) : R.World → α → Prop := fun _ _ => True

def values (R : Regime σ) (w : R.World) (vs : List Value) : Prop := ∀ v ∈ vs, R.value w v

/-- All values that the iteration goes through are good ones. -/
def items (R : Regime σ) (w : R.World) : Items → Prop
  | .values vs => R.values w vs
  | .progression _ => True

/-- The regime is kept by the steps of running. -/
structure Kept (R : Regime σ) (env : Setting σ) : Prop where
  refl (w : R.World) : R.le w w
  trans {u v w : R.World} : R.le u v → R.le v w → R.le u w
  known_of_defines {c d : Code} : R.known c → c.Defines d → R.known d
  value_mono {w w' : R.World} {v : Value} : R.le w w' → R.value w v → R.value w' v
  closure_mono {w w' : R.World} {f : Closure} : R.le w w' → R.closure w f → R.closure w' f
  scope_mono {w w' : R.World} {c : Code} {r : Option ScopeRef} :
    R.le w w' → R.scope w c r → R.scope w' c r
  fresh_mono {w w' : R.World} {c : Code} {k : FrameKind} :
    R.le w w' → R.fresh w c k → R.fresh w' c k
  frame_mono {w w' : R.World} {c : Code} {k : FrameKind} :
    R.le w w' → R.frame w c k → R.frame w' c k
  fresh_of_frame {w : R.World} {c : Code} {k : FrameKind} : R.frame w c k → R.fresh w c k
  /-- Top-level code and the host run in the frame of top-level code. -/
  frame_top {s : Script} (w : R.World) : R.known (.top s) → R.frame w (.top s) .top
  hear {w : R.World} {s : Store} {μ : σ} (f : Frame) (d : Nat) (e : Event) :
    R.holds w s μ → R.holds w s (env.hear f d e μ).2
  plain {v : Value} (w : R.World) : v.isPlain = true → R.value w v
  tuple {w : R.World} {id : Nat} {vs : List Value} : R.value w (.tuple id vs) → R.values w vs
  method {w : R.World} {r : ListRef} {m : ListMethod} :
    R.value w (.method r m) ↔ R.value w (.list r)
  items {w : R.World} {s : Store} {μ : σ} {r : ListRef} :
    R.holds w s μ → R.value w (.list r) → R.values w (s.items r).toList
  binding {w : R.World} {s : Store} {μ : σ} {r : ScopeRef} {name : String} {v : Value} :
    R.holds w s μ → s.get? r name = some v → R.value w v
  newList {w : R.World} {s : Store} {μ : σ} {items : Array Value} :
    R.holds w s μ → R.values w items.toList → R.Grants w s μ (Store.newList items) R.value
  setItems {w : R.World} {s : Store} {μ : σ} {r : ListRef} {items : Array Value} :
    R.holds w s μ → R.value w (.list r) → R.values w items.toList →
    ∃ w', R.le w w' ∧ R.holds w' (s.modifyList r fun _ => items) μ
  newTuple {w : R.World} {s : Store} {μ : σ} {items : List Value} :
    R.holds w s μ → R.values w items → R.Grants w s μ (Store.newTuple items) R.value
  newException {w : R.World} {s : Store} {μ : σ} (kind message : String) :
    R.holds w s μ → R.Grants w s μ (Store.newException kind message) R.value
  setAttribute {w : R.World} {s : Store} {μ : σ} {name attr : String} {r : ScopeRef} {b : Bool}
    {v : Value} : R.holds w s μ → R.value w (.classObject name r b) → R.value w v →
    ∃ w', R.le w w' ∧ R.holds w' (s.set r attr v) μ
  eraseAttribute {w : R.World} {s : Store} {μ : σ} {name attr : String} {r : ScopeRef} {b : Bool} :
    R.holds w s μ → R.value w (.classObject name r b) →
    ∃ w', R.le w w' ∧ R.holds w' (s.erase r attr) μ
  assign {w : R.World} {s : Store} {μ : σ} {c : Code} {k : FrameKind} {name : String} {v : Value}
    {r : ScopeRef} : R.known c → R.frame w c k → c.Binds name → R.holds w s μ → R.value w v →
    s.bindingScope k name = .ok r → ∃ w', R.le w w' ∧ R.holds w' (s.set r name v) μ
  unassign {w : R.World} {s : Store} {μ : σ} {c : Code} {k : FrameKind} {name : String}
    {r : ScopeRef} : R.known c → R.frame w c k → c.Binds name → R.holds w s μ →
    s.bindingScope k name = .ok r → ∃ w', R.le w w' ∧ R.holds w' (s.erase r name) μ
  found {w : R.World} {s : Store} {μ : σ} {r : FunctionRef} {f : Closure} :
    R.holds w s μ → s.function? r = some f → R.closure w f
  known_closure {w : R.World} {f : Closure} : R.closure w f → R.known (.function f.function)
  definitionScope {w : R.World} {s : Store} {μ : σ} {c : Code} {k : FrameKind} :
    R.known c → R.frame w c k → R.holds w s μ → R.scope w c (s.closure? k)
  defined {w : R.World} {c : Code} {head : FunctionHead} {body : List Stmt} {defaults : List Value}
    {r : Option ScopeRef} : R.known c → c.Owns (.function head body) → R.scope w c r →
    R.values w defaults → R.closure w ⟨⟨head, body⟩, defaults, r⟩
  newFunction {w : R.World} {s : Store} {μ : σ} {f : Closure} :
    R.holds w s μ → R.closure w f → R.Grants w s μ (Store.newFunction f) R.value
  callScope {w : R.World} {s : Store} {μ : σ} {f : Closure} {args : List Value} :
    R.holds w s μ → R.closure w f → R.values w args →
    R.Grants w s μ (callScope f.scope (boundArguments f.function args f.defaults)) fun w r =>
      R.fresh w (.function f.function) (.function f.function r)
  classScope {w : R.World} {s : Store} {μ : σ} {c : Code} {head : ClassHead} {body : List Stmt}
    {r : Option ScopeRef} : R.known c → c.Owns (.classDef head body) → R.scope w c r →
    R.holds w s μ → R.Grants w s μ (Store.newScope r) fun w q =>
      R.fresh w (.classBody head body) (.classBody q) ∧ ∀ b, R.value w (.classObject head.name q b)

/-- The frame is one in which a known code object runs. -/
def Stands (R : Regime σ) (w : R.World) (f : Frame) : Prop :=
  ∃ d, R.known d ∧ d.Runs f ∧ R.frame w d f.kind

/-- The machine is in a frame of the code object. -/
structure Ready (R : Regime σ) (F : R.World → Code → FrameKind → Prop) (c : Code) (w : R.World)
    (m : Machine σ) : Prop where
  holds : R.holds w m.store m.monitor
  returned : R.value w m.returned
  frame : ∃ (stack : Array Frame) (f : Frame), m.stack = stack.push f ∧ c.Runs f ∧ F w c f.kind ∧
    ∀ g ∈ stack, R.Stands w g

/-- What a computation in a frame has come to when it has ended. -/
structure After (R : Regime σ) (w : R.World) (m m' : Machine σ) : Prop where
  holds : R.holds w m'.store m'.monitor
  returned : R.value w m'.returned
  frame : ∃ (stack : Array Frame) (f : Frame) (line : Nat) (reported : Bool),
    m.stack = stack.push f ∧ m'.stack = stack.push { f with line, reported }

/-- What a computation in a frame comes to. -/
def Comes (R : Regime σ) (w : R.World) (P : R.World → α → Prop) (m : Machine σ) :
    Ending σ α → Prop
  | .done a m' => ∃ w', R.le w w' ∧ R.After w' m m' ∧ P w' a
  | .failed _ m' => ∃ w', R.le w w' ∧ R.After w' m m'
  | .unfinished m' => ∃ w', R.le w w' ∧ R.holds w' m'.store m'.monitor

/-- In a frame of the code object, in the world or one after it, the computation keeps to the regime
and gives such a value. -/
def Yields (R : Regime σ) (F : R.World → Code → FrameKind → Prop) (c : Code) (w : R.World)
    (P : R.World → α → Prop) (x : Action σ α) : Prop :=
  ∀ ⦃w'⦄, R.le w w' → ∀ ⦃m⦄, R.Ready F c w' m → R.Comes w' P m (x m)

variable {R : Regime σ} {F : R.World → Code → FrameKind → Prop} {env : Setting σ} {c : Code}
  {w w' : R.World} {P : R.World → α → Prop} {Q : R.World → β → Prop}

/-- What is said of frames goes on to hold. -/
def Lasts (R : Regime σ) (F : R.World → Code → FrameKind → Prop) : Prop :=
  ∀ ⦃w w' : R.World⦄ ⦃c : Code⦄ ⦃k : FrameKind⦄, R.le w w' → F w c k → F w' c k

theorem Kept.values_mono (h : R.Kept env) {vs : List Value} (later : R.le w w')
    (hvs : R.values w vs) : R.values w' vs := fun v hv => h.value_mono later (hvs v hv)

theorem Kept.items_mono (h : R.Kept env) {i : Items} (later : R.le w w') (hi : R.items w i) :
    R.items w' i := by
  cases i with
  | values vs => exact h.values_mono later hi
  | progression r => trivial

theorem Kept.stands_mono (h : R.Kept env) {f : Frame} (later : R.le w w') (hf : R.Stands w f) :
    R.Stands w' f := by
  obtain ⟨d, known, runs, frame⟩ := hf
  exact ⟨d, known, runs, h.frame_mono later frame⟩

variable {m m' m'' : Machine σ}

theorem Ready.after (h : R.Kept env) (lasts : R.Lasts F) (ready : R.Ready F c w m)
    (later : R.le w w') (after : R.After w' m m') : R.Ready F c w' m' := by
  obtain ⟨stack, f, line, reported, hm, hm'⟩ := after.frame
  obtain ⟨stack', f', hm₁, runs, frame, stands⟩ := ready.frame
  obtain ⟨rfl, rfl⟩ := Array.push_eq_push.1 (hm.symm.trans hm₁)
  exact ⟨after.holds, after.returned, stack, _, hm', runs, lasts later frame,
    fun g hg => h.stands_mono later (stands g hg)⟩

theorem Ready.weaken {G : R.World → Code → FrameKind → Prop}
    (ready : R.Ready F c w m) (imp : ∀ {w c k}, F w c k → G w c k) : R.Ready G c w m := by
  obtain ⟨stack, f, hm, runs, frame, stands⟩ := ready.frame
  exact ⟨ready.holds, ready.returned, stack, f, hm, runs, imp frame, stands⟩

theorem After.trans (after : R.After w m m') (next : R.After w' m' m'') : R.After w' m m'' := by
  obtain ⟨stack, f, line, reported, hm, hm'⟩ := after.frame
  obtain ⟨stack', f', line', reported', hm₁, hm''⟩ := next.frame
  obtain ⟨rfl, rfl⟩ := Array.push_eq_push.1 (hm'.symm.trans hm₁)
  exact ⟨next.holds, next.returned, stack, f, line', reported', hm, hm''⟩

/-- A step that changes nothing the regime speaks of. -/
theorem Ready.still (ready : R.Ready F c w m)
    (holds : R.holds w' m'.store m'.monitor) (returned : R.value w' m'.returned)
    (stack : m'.stack = m.stack) : R.After w' m m' := by
  obtain ⟨rest, f, hm, -⟩ := ready.frame
  exact ⟨holds, returned, rest, f, f.line, f.reported, hm, stack.trans hm⟩

theorem Ready.same (ready : R.Ready F c w m) (store : m'.store = m.store)
    (monitor : m'.monitor = m.monitor) (returned : m'.returned = m.returned)
    (stack : m'.stack = m.stack) : R.After w m m' := by
  refine ready.still ?_ (returned ▸ ready.returned) stack
  rw [store, monitor]
  exact ready.holds

theorem Comes.after {r : Ending σ α} (h : R.Kept env) (later : R.le w w')
    (after : R.After w' m m') (comes : R.Comes w' P m' r) : R.Comes w P m r := by
  cases r with
  | done a n =>
    obtain ⟨u, hu, next, ha⟩ := comes
    exact ⟨u, h.trans later hu, after.trans next, ha⟩
  | failed f n =>
    obtain ⟨u, hu, next⟩ := comes
    exact ⟨u, h.trans later hu, after.trans next⟩
  | unfinished n =>
    obtain ⟨u, hu, holds⟩ := comes
    exact ⟨u, h.trans later hu, holds⟩

namespace Yields

theorem weaken {G : R.World → Code → FrameKind → Prop} {x : Action σ α}
    (hx : R.Yields G c w P x) (imp : ∀ {w c k}, F w c k → G w c k) : R.Yields F c w P x :=
  fun _ later _ ready => hx later (ready.weaken imp)

variable (h : R.Kept env)

include h

theorem later {x : Action σ α} (hx : R.Yields F c w P x) (later : R.le w w') :
    R.Yields F c w' P x :=
  fun _ further _ ready => hx (h.trans later further) ready

theorem pure {a : α} (ha : ∀ w', R.le w w' → P w' a) : R.Yields F c w P (pure a) :=
  fun w' later _ ready => ⟨w', h.refl w', ready.same rfl rfl rfl rfl, ha w' later⟩

/-- What reads the store and the frame says of its value. -/
theorem observe {f : Store → Option (Except Failure α)}
    (hf : ∀ w', R.le w w' → ∀ s μ a, R.holds w' s μ → f s = some (.ok a) → P w' a) :
    R.Yields F c w P (Action.observe f) := by
  intro w' later m ready
  have same : R.After w' m m := ready.same rfl rfl rfl rfl
  unfold Action.observe
  split
  · next a ha => exact ⟨w', h.refl w', same, hf w' later _ _ a ready.holds ha⟩
  · exact ⟨w', h.refl w', same⟩
  · exact ⟨w', h.refl w', ready.holds⟩

theorem fail (f : Failure) : R.Yields F c w P (Action.fail f) :=
  observe h fun _ _ _ _ _ _ same => nomatch same

theorem raiseAt (f : Fault) (p : Position) : R.Yields F c w P (Action.raiseAt f p) := fail h _

theorem unfinished : R.Yields F c w P Action.unfinished :=
  observe h fun _ _ _ _ _ _ same => nomatch same

theorem readAt {p : Position} {f : Store → Except Fault α}
    (hf : ∀ w', R.le w w' → ∀ s μ a, R.holds w' s μ → f s = .ok a → P w' a) :
    R.Yields F c w P (Action.readAt p f) := by
  refine observe h fun w' later s μ a holds same => hf w' later s μ a holds ?_
  cases hs : f s with
  | ok b =>
    rw [hs] at same
    cases same
    rfl
  | error e =>
    rw [hs] at same
    cases same

theorem lift {p : Position} {x : Except Fault α}
    (hx : ∀ w', R.le w w' → ∀ a, x = .ok a → P w' a) : R.Yields F c w P (Action.lift p x) :=
  readAt h fun w' later _ _ a _ same => hx w' later a same

theorem read {f : Store → α}
    (hf : ∀ w', R.le w w' → ∀ s μ, R.holds w' s μ → P w' (f s)) :
    R.Yields F c w P (Action.read f) := by
  refine observe h fun w' later s μ a holds same => ?_
  cases same
  exact hf w' later s μ holds

theorem attemptAt (p : Position) (f : Store → Attempt α) :
    R.Yields F c w R.any (Action.attemptAt p f) := observe h fun _ _ _ _ _ _ _ => trivial

theorem await (x : Option α) : R.Yields F c w R.any (Action.await x) :=
  observe h fun _ _ _ _ _ _ _ => trivial

theorem edit {e : Edit α} (he : ∀ w', R.le w w' → ∀ s μ, R.holds w' s μ → R.Grants w' s μ e P) :
    R.Yields F c w P (Action.edit e) := by
  intro w' later m ready
  obtain ⟨u, hu, holds, ha⟩ := he w' later _ _ ready.holds
  rw [Action.edit_apply]
  exact ⟨u, hu, ready.still holds (h.value_mono hu ready.returned) rfl, ha⟩

theorem editAt {p : Position} {plan : Store → Except Fault (Edit α)}
    (hplan : ∀ w', R.le w w' → ∀ s μ e, R.holds w' s μ → plan s = .ok e → R.Grants w' s μ e P) :
    R.Yields F c w P (Action.editAt p plan) := by
  intro w' later m ready
  unfold Action.editAt
  split
  · next e he =>
    obtain ⟨u, hu, holds, ha⟩ := hplan w' later _ _ e ready.holds he
    rw [Action.edit_apply]
    exact ⟨u, hu, ready.still holds (h.value_mono hu ready.returned) rfl, ha⟩
  · exact ⟨w', h.refl w', ready.same rfl rfl rfl rfl⟩

theorem frameKind : R.Yields F c w (fun w k => F w c k) Action.frameKind := by
  intro w' later m ready
  obtain ⟨stack, f, hm, -, frame, -⟩ := ready.frame
  refine ⟨w', h.refl w', ready.same rfl rfl rfl rfl, ?_⟩
  rw [hm, Array.back?_push]
  exact frame

theorem getPos : R.Yields F c w R.any Action.getPos :=
  fun w' _ _ ready => ⟨w', h.refl w', ready.same rfl rfl rfl rfl, trivial⟩

theorem setPos (p : Position) : R.Yields F c w R.any (Action.setPos p) :=
  fun w' _ _ ready => ⟨w', h.refl w', ready.same rfl rfl rfl rfl, trivial⟩

theorem write (text : String) : R.Yields F c w R.any (Action.write text) :=
  fun w' _ _ ready => ⟨w', h.refl w', ready.same rfl rfl rfl rfl, trivial⟩

theorem setJump (j : Jump) : R.Yields F c w R.any (Action.setJump j) :=
  fun w' _ _ ready => ⟨w', h.refl w', ready.same rfl rfl rfl rfl, trivial⟩

theorem giveBack {v : Value} (hv : R.value w v) : R.Yields F c w R.any (Action.giveBack v) :=
  fun w' later _ ready => ⟨w', h.refl w',
    ready.still ready.holds (h.value_mono later hv) rfl, trivial⟩

theorem result : R.Yields F c w R.value Action.result := by
  intro w' _ m ready
  have none : R.value w' .none := h.plain w' rfl
  rw [Action.result_apply]
  split
  · exact ⟨w', h.refl w', ready.still ready.holds none rfl, ready.returned⟩
  · exact ⟨w', h.refl w', ready.same rfl rfl rfl rfl, none⟩

theorem reraise (p : Position) : R.Yields F c w R.any (Action.reraise p) := by
  intro w' _ m ready
  have same : R.After w' m m := ready.same rfl rfl rfl rfl
  unfold Action.reraise
  split
  · exact ⟨w', h.refl w', same⟩
  · exact ⟨w', h.refl w', same⟩

theorem checkDeadline : R.Yields F c w R.any env.checkDeadline := by
  intro w' _ m ready
  obtain ⟨timer, same | ⟨missed, same⟩⟩ := env.checkDeadline_apply m <;> rw [same]
  · exact ⟨w', h.refl w', ready.same rfl rfl rfl rfl, trivial⟩
  · exact ⟨w', h.refl w', ready.same rfl rfl rfl rfl⟩

theorem setReported (reported : Bool) :
    R.Yields F c w R.any (Action.modifyFrame ({ · with reported })) := by
  intro w' _ m ready
  obtain ⟨stack, f, hm, -⟩ := ready.frame
  refine ⟨w', h.refl w', ⟨ready.holds, ready.returned, stack, f, f.line, reported, hm, ?_⟩, trivial⟩
  dsimp only
  rw [hm, modify_push]

variable (lasts : R.Lasts F)

include lasts

theorem bind {x : Action σ α} {f : α → Action σ β} (hx : R.Yields F c w P x)
    (hf : ∀ w', R.le w w' → ∀ a, P w' a → R.Yields F c w' Q (f a)) :
    R.Yields F c w Q (x >>= f) := by
  intro w' later m ready
  have comes := hx later ready
  rw [Action.bind_apply]
  cases hr : x m with
  | done a m' =>
    rw [hr] at comes
    obtain ⟨u, hu, after, ha⟩ := comes
    have rest := hf u (h.trans later hu) a ha (h.refl u) (ready.after h lasts hu after)
    exact rest.after h hu after
  | failed f m' | unfinished m' =>
    rw [hr] at comes
    exact comes

theorem discard {x : Action σ α} (hx : R.Yields F c w P x) : R.Yields F c w R.any (discard x) :=
  hx.bind h lasts fun _ _ _ _ => pure h fun _ _ => trivial

/-- A computation after another one of which nothing is said. -/
theorem andThen {x : Action σ α} {f : α → Action σ β} (hx : R.Yields F c w P x)
    (hf : ∀ w', R.le w w' → ∀ a, R.Yields F c w' Q (f a)) : R.Yields F c w Q (x >>= f) :=
  hx.bind h lasts fun w' later a _ => hf w' later a

theorem proceed {x y : Action σ Unit} {g : Failure → Action σ Unit}
    (hx : R.Yields F c w R.any x) (hy : R.Yields F c w R.any y)
    (hg : ∀ f, R.Yields F c w R.any (g f)) : R.Yields F c w R.any (Action.proceed x y g) := by
  intro w' later m ready
  have comes := hx later ready
  unfold Action.proceed
  cases hr : x m with
  | done a m' =>
    rw [hr] at comes
    obtain ⟨u, hu, after, ha⟩ := comes
    dsimp only
    split
    · exact (hy (h.trans later hu) (ready.after h lasts hu after)).after h hu after
    · exact ⟨u, hu, after, trivial⟩
  | failed f m' =>
    rw [hr] at comes
    obtain ⟨u, hu, after⟩ := comes
    exact (hg f (h.trans later hu) (ready.after h lasts hu after)).after h hu after
  | unfinished m' =>
    rw [hr] at comes
    exact comes

theorem round {x y : Action σ Unit} (hx : R.Yields F c w R.any x) (hy : R.Yields F c w R.any y) :
    R.Yields F c w R.any (Action.round x y) := by
  intro w' later m ready
  have comes := hx later ready
  unfold Action.round
  cases hr : x m with
  | done a m' =>
    rw [hr] at comes
    obtain ⟨u, hu, after, ha⟩ := comes
    have there := ready.after h lasts hu after
    have arrived : R.After u m { m' with jump := .none } :=
      after.trans (there.same rfl rfl rfl rfl)
    dsimp only
    cases m'.jump with
    | none => exact (hy (h.trans later hu) there).after h hu after
    | cont => exact (hy (h.trans later hu) (ready.after h lasts hu arrived)).after h hu arrived
    | brk => exact ⟨u, hu, arrived, trivial⟩
    | ret => exact ⟨u, hu, after, trivial⟩
  | failed f m' | unfinished m' =>
    rw [hr] at comes
    exact comes

theorem putAside {x : Action σ Unit} (hx : R.Yields F c w R.any x)
    {pending : Machine σ → Ending σ Unit} (hp : R.Yields F c w R.any pending) :
    R.Yields F c w R.any (Action.putAside x pending) := by
  intro w' later m ready
  have none : R.value w' .none := h.plain w' rfl
  have aside : R.After w' m { m with jump := .none, returned := .none } :=
    ready.still ready.holds none rfl
  have comes := hx later (ready.after h lasts (h.refl w') aside)
  rw [Action.putAside_apply]
  cases hr : x { m with jump := .none, returned := .none } with
  | done a m' =>
    rw [hr] at comes
    obtain ⟨u, hu, after, ha⟩ := comes
    have ended : R.After u m m' := aside.trans after
    dsimp only
    split
    · have back : R.After u m { m' with jump := m.jump, returned := m.returned } :=
        ended.trans ((ready.after h lasts hu ended).still after.holds
          (h.value_mono hu ready.returned) rfl)
      exact (hp (h.trans later hu) (ready.after h lasts hu back)).after h hu back
    · exact ⟨u, hu, ended, trivial⟩
  | failed f m' =>
    rw [hr] at comes
    obtain ⟨u, hu, after⟩ := comes
    exact ⟨u, hu, aside.trans after⟩
  | unfinished m' =>
    rw [hr] at comes
    exact comes

theorem lastly {x y : Action σ Unit} (hx : R.Yields F c w R.any x) (hy : R.Yields F c w R.any y) :
    R.Yields F c w R.any (Action.lastly x y) := by
  intro w' later m ready
  have comes := hx later ready
  unfold Action.lastly
  cases hr : x m with
  | done a m' =>
    rw [hr] at comes
    obtain ⟨u, hu, after, ha⟩ := comes
    have ended : R.Yields F c w R.any (Ending.done (σ := σ) ()) :=
      fun v _ _ there => ⟨v, h.refl v, there.same rfl rfl rfl rfl, trivial⟩
    have rest := hy.putAside h lasts ended (h.trans later hu) (ready.after h lasts hu after)
    exact rest.after h hu after
  | failed f m' =>
    rw [hr] at comes
    obtain ⟨u, hu, after⟩ := comes
    have ended : R.Yields F c w R.any (Ending.failed (σ := σ) (α := Unit) f) :=
      fun v _ _ there => ⟨v, h.refl v, there.same rfl rfl rfl rfl⟩
    have rest := hy.putAside h lasts ended (h.trans later hu) (ready.after h lasts hu after)
    exact rest.after h hu after
  | unfinished m' =>
    rw [hr] at comes
    exact comes

theorem backAt {x : Action σ α} (p : Position) (hx : R.Yields F c w P x) :
    R.Yields F c w P (Action.backAt p x) := by
  intro w' later m ready
  have comes := hx later ready
  unfold Action.backAt
  cases hr : x m with
  | done a m' =>
    rw [hr] at comes
    obtain ⟨u, hu, after, ha⟩ := comes
    exact ⟨u, hu, after.trans ((ready.after h lasts hu after).same rfl rfl rfl rfl), ha⟩
  | failed f m' =>
    rw [hr] at comes
    obtain ⟨u, hu, after⟩ := comes
    exact ⟨u, hu, after.trans ((ready.after h lasts hu after).same rfl rfl rfl rfl)⟩
  | unfinished m' =>
    rw [hr] at comes
    exact comes

theorem whileHandling {x : Action σ Unit} (f : Failure) (hx : R.Yields F c w R.any x) :
    R.Yields F c w R.any (Action.whileHandling f x) := by
  intro w' later m ready
  have begun : R.After w' m { m with handling := f :: m.handling } :=
    ready.same rfl rfl rfl rfl
  have comes := hx later (ready.after h lasts (h.refl w') begun)
  have ended {u : R.World} {n : Machine σ} (hu : R.le w' u)
      (after : R.After u { m with handling := f :: m.handling } n) :
      R.After u m { n with handling := n.handling.tail } :=
    begun.trans (after.trans ((ready.after h lasts hu (begun.trans after)).same rfl rfl rfl rfl))
  unfold Action.whileHandling
  cases hr : x { m with handling := f :: m.handling } with
  | done a m' =>
    rw [hr] at comes
    obtain ⟨u, hu, after, ha⟩ := comes
    exact ⟨u, hu, ended hu after, trivial⟩
  | failed e m' =>
    rw [hr] at comes
    obtain ⟨u, hu, after⟩ := comes
    exact ⟨u, hu, ended hu after⟩
  | unfinished m' =>
    rw [hr] at comes
    exact comes

theorem markLine (n : Nat) : R.Yields F c w R.any (env.markLine n) := by
  refine (checkDeadline h).bind h lasts fun u _ _ _ => ?_
  intro w' _ m ready
  obtain ⟨stack, f, hm, -⟩ := ready.frame
  have hmark : ({ m with stack := m.stack.modify (m.stack.size - 1) ({ · with line := n }) } :
      Machine σ).stack = stack.push { f with line := n } := by
    dsimp only
    rw [hm, modify_push]
  have told := h.hear { f with line := n } (stack.size + 1) .line ready.holds
  rw [Action.bind_apply]
  simp only [Action.modifyFrame]
  rcases env.tell_push .line hmark with same | ⟨text, same⟩ <;> rw [same]
  · exact ⟨w', h.refl w', ⟨told, ready.returned, stack, f, n, f.reported, hm, hmark⟩, trivial⟩
  · exact ⟨w', h.refl w', ⟨told, ready.returned, stack, f, n, f.reported, hm, hmark⟩⟩

theorem markLines (ns : List Nat) : R.Yields F c w R.any (env.markLines ns) := by
  induction ns with
  | nil => exact pure h fun _ _ => trivial
  | cons n ns ih => exact (markLine h lasts n).bind h lasts fun _ further _ _ => ih.later h further

omit lasts in
theorem report (f : Failure) : R.Yields F c w R.any (env.report f) := by
  intro w' _ m ready
  obtain ⟨stack, g, hm, -⟩ := ready.frame
  have told := h.hear { g with reported := true } (stack.size + 1) .exception ready.holds
  by_cases first : (f.isCatchable && !g.reported) = true
  · have heard : (env.hear { g with reported := true } (stack.size + 1) .exception m.monitor) =
        env.hear g (stack.size + 1) .exception m.monitor := rfl
    rw [heard] at told
    rcases env.report_first hm first with same | ⟨text, same⟩ <;> rw [same]
    · exact ⟨w', h.refl w', ⟨told, ready.returned, stack, g, g.line, true, hm, rfl⟩, trivial⟩
    · exact ⟨w', h.refl w', ⟨told, ready.returned, stack, g, g.line, true, hm, rfl⟩⟩
  · rw [env.report_later hm (Bool.not_eq_true _ ▸ first)]
    exact ⟨w', h.refl w', ready.same rfl rfl rfl rfl, trivial⟩

theorem reporting {x : Action σ Unit} (hx : R.Yields F c w R.any x) :
    R.Yields F c w R.any (env.reporting x) :=
  hx.proceed h lasts (pure h fun _ _ => trivial) fun f =>
    (report h f).bind h lasts fun _ _ _ _ => fail h f

end Yields

end

end Regime

end Footprint
