import Footprint.Proofs.RunRelation
import Footprint.Session.Interpreter

set_option autoImplicit false

/-!
More steps never change how a run ends. So it is the same for all numbers of steps that suffice, and
what a run comes to can be said without them.
-/

namespace Footprint

namespace Action

variable {σ α β : Type}

/-- The second computation ends as the first one does wherever the first one ends. -/
def Extends (x y : Action σ α) : Prop := ∀ m, x m = y m ∨ ∃ m', x m = .unfinished m'

namespace Extends

theorem refl (x : Action σ α) : Extends x x := fun _ => .inl rfl

theorem bind {x y : Action σ α} {f g : α → Action σ β} (hx : Extends x y)
    (hf : ∀ a, Extends (f a) (g a)) : Extends (x >>= f) (y >>= g) := by
  intro m
  rw [bind_apply, bind_apply]
  rcases hx m with h | ⟨m', h⟩
  · rw [h]
    cases y m with
    | done a m' => exact hf a m'
    | failed f m' => exact .inl rfl
    | unfinished m' => exact .inl rfl
  · rw [h]
    exact .inr ⟨m', rfl⟩

theorem proceed {x x' y y' : Action σ Unit} {h h' : Failure → Action σ Unit} (hx : Extends x x')
    (hy : Extends y y') (hh : ∀ f, Extends (h f) (h' f)) :
    Extends (proceed x y h) (proceed x' y' h') := by
  intro m
  unfold Action.proceed
  rcases hx m with e | ⟨m', e⟩
  · rw [e]
    cases x' m with
    | done a m' =>
      dsimp only
      split
      · exact hy m'
      · exact .inl rfl
    | failed f m' => exact hh f m'
    | unfinished m' => exact .inl rfl
  · rw [e]
    exact .inr ⟨m', rfl⟩

theorem round {x x' y y' : Action σ Unit} (hx : Extends x x') (hy : Extends y y') :
    Extends (round x y) (round x' y') := by
  intro m
  unfold Action.round
  rcases hx m with e | ⟨m', e⟩
  · rw [e]
    cases x' m with
    | done a m' =>
      dsimp only
      cases m'.jump with
      | none => exact hy m'
      | cont => exact hy _
      | brk | ret => exact .inl rfl
    | failed f m' | unfinished m' => exact .inl rfl
  · rw [e]
    exact .inr ⟨m', rfl⟩

theorem putAside {x y : Action σ Unit} (h : Extends x y) (pending : Machine σ → Ending σ Unit) :
    Extends (putAside x pending) (putAside y pending) := by
  intro m
  rw [putAside_apply, putAside_apply]
  rcases h { m with jump := .none, returned := .none } with e | ⟨m', e⟩
  · exact .inl (by rw [e])
  · rw [e]
    exact .inr ⟨m', rfl⟩

theorem lastly {x x' y y' : Action σ Unit} (hx : Extends x x') (hy : Extends y y') :
    Extends (lastly x y) (lastly x' y') := by
  intro m
  unfold Action.lastly
  rcases hx m with e | ⟨m', e⟩
  · rw [e]
    cases x' m with
    | done a m' => exact hy.putAside _ m'
    | failed f m' => exact hy.putAside _ m'
    | unfinished m' => exact .inl rfl
  · rw [e]
    exact .inr ⟨m', rfl⟩

theorem whileHandling {x y : Action σ Unit} (h : Extends x y) (f : Failure) :
    Extends (whileHandling f x) (whileHandling f y) := by
  intro m
  unfold Action.whileHandling
  rcases h { m with handling := f :: m.handling } with e | ⟨m', e⟩
  · exact .inl (by rw [e])
  · rw [e]
    exact .inr ⟨_, rfl⟩

theorem thenForget {x y : Action σ Unit} (h : Extends x y) (name : Option String) :
    Extends (thenForget name x) (thenForget name y) := by
  cases name with
  | none => exact h
  | some name =>
    intro m
    unfold Action.thenForget
    rcases h m with e | ⟨m', e⟩
    · exact .inl (by dsimp only; rw [e])
    · dsimp only
      rw [e]
      exact .inr ⟨_, rfl⟩

theorem clause {x y : Action σ Unit} (h : Extends x y) (f : Failure) (name : Option String) :
    Extends (clause f name x) (clause f name y) :=
  (refl _).bind fun _ => (refl _).bind fun _ => (h.whileHandling f).thenForget name

theorem backAt {x y : Action σ α} (h : Extends x y) (p : Position) :
    Extends (backAt p x) (backAt p y) := by
  intro m
  unfold Action.backAt
  rcases h m with e | ⟨m', e⟩
  · exact .inl (by rw [e])
  · rw [e]
    exact .inr ⟨_, rfl⟩

theorem inFrame {x y : Action σ Unit} (h : Extends x y) (env : Setting σ) (frame : Frame) :
    Extends (env.inFrame frame x) (env.inFrame frame y) := by
  have whole : Extends (do push frame; env.announce; env.markHeader; x; result)
      (do push frame; env.announce; env.markHeader; y; result) :=
    (refl _).bind fun _ => (refl _).bind fun _ => (refl _).bind fun _ => h.bind fun _ => refl _
  intro m
  unfold Setting.inFrame
  split
  · exact .inl rfl
  · rcases whole m with e | ⟨m', e⟩
    · exact .inl (by rw [e])
    · rw [e]
      exact .inr ⟨m', rfl⟩

theorem inHostFrame {x y : Action σ Value} (h : Extends x y) :
    Extends (inHostFrame x) (inHostFrame y) := by
  intro m
  unfold Action.inHostFrame
  rcases h { m with stack := m.stack.push .host } with e | ⟨m', e⟩
  · exact .inl (by rw [e])
  · rw [e]
    exact .inr ⟨m', rfl⟩

/-- The relation between computations and those that extend them. -/
def relation (σ : Type) : RunRelation σ σ where
  known _ := True
  expr _ _ := Extends
  stmt _ := Extends
  final _ := Extends

theorem closed (env : Setting σ) : (relation σ).Closed env env where
  pure _ _ _ := refl _
  bind := bind
  observe _ _ _ := refl _
  editAt _ _ _ _ _ := refl _
  newFunction _ _ _ := refl _
  frameKind _ := refl _
  getPos _ := refl _
  setPos _ _ := refl _
  write _ _ := refl _
  reraise _ _ := refl _
  checkDeadline _ := refl _
  markLine _ := refl _
  lookup _ _ _ h := (refl _).bind fun found => h found fun _ _ => trivial
  inFrame _ _ h := inFrame h env _
  backAt p h := backAt h p
  known_classBody _ _ := trivial
  ofExpr h := h
  andThen := bind
  setJump _ _ := refl _
  giveBack _ _ := refl _
  proceed hx hy hh _ := proceed hx hy hh
  round := round
  lastly := lastly

theorem encloses (env : Setting σ) : (relation σ).Encloses env env where
  reporting {c} _ _ hx := (closed env).reporting (c := c) (fun _ => refl _) hx
  clause f name _ _ hx := Extends.clause hx f name

end Extends

end Action

namespace Setting

open Footprint.Action

variable {σ : Type}

theorem calls_extends (env : Setting σ) {n k : Nat} (h : n ≤ k) :
    (Extends.relation σ).Agree (env.calls n) (env.calls k) := by
  induction n generalizing k with
  | zero =>
    have none {α : Type} (y : Action σ α) : Extends unfinished y := fun m => .inr ⟨m, rfl⟩
    exact ⟨fun _ _ => none _, fun _ _ => none _, fun _ _ _ => none _, fun _ _ _ => none _⟩
  | succ n ih =>
    cases k with
    | zero => exact absurd h (Nat.not_succ_le_zero n)
    | succ k =>
      exact (Extends.closed env).next (Extends.encloses env) (fun _ _ _ _ hb => hb)
        (ih (Nat.le_of_succ_le_succ h))

theorem runScript_extends (env : Setting σ) {n k : Nat} (h : n ≤ k) (script : Script) :
    Extends (env.runScript n script) (env.runScript k script) := by
  have body := (env.calls_extends h).run (c := .top script) trivial _ (Code.allows_body _)
  exact (Extends.refl _).bind fun _ => (Extends.refl _).bind fun _ =>
    (body.inFrame env .top).bind fun _ => Extends.refl _

theorem callGlobal_extends (env : Setting σ) {n k : Nat} (h : n ≤ k) (name : String)
    (args : List Value) : Extends (env.callGlobal n name args) (env.callGlobal k name args) := by
  unfold callGlobal callWith
  refine (Extends.refl _).bind fun callee => ?_
  cases callee with
  | none => exact Extends.refl _
  | some v =>
    apply (Extends.refl _).bind
    intro _
    refine Extends.inHostFrame ((Extends.refl _).bind fun p => ?_)
    exact (env.calls_extends h).value (c := .top ⟨[]⟩) trivial (.call v args p)

end Setting

namespace Interpreter

open Footprint.Action

variable {ω α : Type} {i : Interpreter ω} {μ : Monitors ω}

theorem act_extends {x y : Setting (Monitors ω) → Action (Monitors ω) α}
    (h : ∀ env, Extends (x env) (y env)) {r : Except Failure α × Interpreter ω × Monitors ω}
    (ended : i.act μ x = some r) : i.act μ y = some r := by
  unfold act at ended ⊢
  rcases h i.setting (i.machine.withMonitor μ) with e | ⟨m', e⟩
  · rw [← e]
    exact ended
  · rw [e] at ended
    cases ended

theorem run_mono {n k : Nat} (h : n ≤ k) {r : Except Failure Unit × Interpreter ω × Monitors ω}
    (ended : i.run n μ = some r) : i.run k μ = some r :=
  act_extends (fun env => env.runScript_extends h _) ended

theorem call_mono {n k : Nat} (h : n ≤ k) {name : String} {args : Edit (List Value)}
    {r : Except Failure Value × Interpreter ω × Monitors ω}
    (ended : i.call n μ name args = some r) : i.call k μ name args = some r :=
  act_extends (fun env => (Extends.refl _).bind fun vs => env.callGlobal_extends h name vs) ended

/-- A run ends, with some number of steps. -/
def RunsTo (i : Interpreter ω) (μ : Monitors ω)
    (r : Except Failure Unit × Interpreter ω × Monitors ω) : Prop := ∃ n, i.run n μ = some r

/-- A call of a global function ends, with some number of steps. -/
def CallsTo (i : Interpreter ω) (μ : Monitors ω) (name : String) (args : Edit (List Value))
    (r : Except Failure Value × Interpreter ω × Monitors ω) : Prop :=
  ∃ n, i.call n μ name args = some r

theorem RunsTo.unique {r s : Except Failure Unit × Interpreter ω × Monitors ω}
    (hr : i.RunsTo μ r) (hs : i.RunsTo μ s) : r = s := by
  obtain ⟨n, hr⟩ := hr
  obtain ⟨k, hs⟩ := hs
  have hr' := run_mono (Nat.le_max_left n k) hr
  have hs' := run_mono (Nat.le_max_right n k) hs
  exact Option.some.inj (hr'.symm.trans hs')

theorem CallsTo.unique {name : String} {args : Edit (List Value)}
    {r s : Except Failure Value × Interpreter ω × Monitors ω} (hr : i.CallsTo μ name args r)
    (hs : i.CallsTo μ name args s) : r = s := by
  obtain ⟨n, hr⟩ := hr
  obtain ⟨k, hs⟩ := hs
  have hr' := call_mono (Nat.le_max_left n k) hr
  have hs' := call_mono (Nat.le_max_right n k) hs
  exact Option.some.inj (hr'.symm.trans hs')

end Interpreter

end Footprint
