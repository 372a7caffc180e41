import Footprint.Proofs.BigStep
import Mathlib.Order.Filter.AtTopBot.Basic

set_option autoImplicit false

/-!
Running agrees with the rules: what a block comes to on the machine is what it completes with by the
rules, and it does not end where they let nothing complete.
-/

namespace Footprint

open Footprint.Action Footprint.Setting

section

variable {σ α : Type} {env : Setting σ}

namespace Task

/-- What the machine does, given what answers requests. -/
def action (c : Calls σ) : Task env → Action σ Unit
  | .complete o => o.ending
  | .first x next => do
    let a ← x.action c
    (next a).action c
  | .run t => c.run t
  | .perform s => env.perform c s
  | .round body p again =>
    Action.round (c.block body) do
      (env.marked p).action c
      c.run again
  | .covered body handlers orelse =>
    proceed (c.block body) (c.block orelse) fun f =>
      if f.isCatchable && !handlers.isEmpty then env.handle c.value c.run f handlers else fail f
  | .handle f handlers => env.handle c.value c.run f handlers
  | .handling f h => thenForget h.name (whileHandling f (c.block h.body))
  | .activation frame body => do giveBack (← env.inFrame frame (c.block body))
  | .classBody head body parts => do
    discard (env.inFrame (.ofClass head parts.scope) (c.block body))
    (env.classBound head parts).action c

/-! ### The machine's own rules in these words -/

variable (c : Calls σ)

theorem action_if (b : Bool) (t u : Task env) :
    (if b then t else u).action c = if b then t.action c else u.action c := by
  cases b <;> rfl

theorem action_only (x : env.Shared Unit) : (only x).action c = x.action c := by
  funext m
  change (x.action c >>= fun _ => Completion.normal.ending) m = _
  rw [bind_apply]
  cases x.action c m <;> rfl

theorem action_plain {s : Stmt} (h : s.isPlain = true) :
    (perform s : Task env).action c = (only (env.performed s h)).action c :=
  (action_only c (env.performed s h)).symm

theorem action_cond (test : Expr) (body orelse : List Stmt) (p : Position) :
    (perform (.cond test body orelse p) : Task env).action c =
      (first (env.truth test) fun b => block (if b then body else orelse)).action c := by
  refine Eq.trans ?_ (bind_assoc _ _ _).symm
  refine congrArg (c.eval test >>= ·) (funext fun v => congrArg (read _ >>= ·) (funext fun b => ?_))
  cases b <;> rfl

theorem action_forLoop (target iter : Expr) (body orelse : List Stmt) (p : Position) :
    (perform (.forLoop target iter body orelse p) : Task env).action c =
      (first (env.iterated iter p) fun items => run (.forRounds target items body orelse p)).action
        c :=
  (bind_assoc _ _ _).symm

theorem action_classDef (head : ClassHead) (body : List Stmt) :
    (perform (.classDef head body) : Task env).action c =
      (first (env.classParts head) fun parts => classBody head body parts).action c := by
  symm
  refine (bind_assoc _ _ _).trans (congrArg (_ >>= ·) (funext fun decorators => ?_))
  refine (bind_assoc _ _ _).trans (congrArg (_ >>= ·) (funext fun bases => ?_))
  refine (bind_assoc _ _ _).trans (congrArg (_ >>= ·) (funext fun k => ?_))
  refine (bind_assoc _ _ _).trans (congrArg (_ >>= ·) (funext fun closure => ?_))
  exact bind_assoc _ _ _

theorem action_tryOnly (body orelse : List Stmt) (handlers : List Handler) (p : Position) :
    (perform (.tryBlock body handlers orelse [] p) : Task env).action c =
      (covered body handlers orelse : Task env).action c := rfl

theorem action_tryFinally (body orelse : List Stmt) {final : List Stmt} (handlers : List Handler)
    (p : Position) (nonempty : final ≠ []) :
    (perform (.tryBlock body handlers orelse final p) : Task env).action c =
      lastly ((covered body handlers orelse : Task env).action c) (c.block final) := by
  cases final with
  | nil => exact absurd rfl nonempty
  | cons s rest => rfl

theorem action_handle (f : Failure) (h : Handler) (rest : List Handler) :
    (handle f (h :: rest) : Task env).action c =
      (first (env.marked h.pos) fun _ => first (env.catching f h) fun b =>
        if b then run (.clause f h) else handle f rest).action c := by
  refine Eq.trans ?_ (bind_assoc _ _ _).symm
  refine congrArg (setPos h.pos >>= ·) (funext fun _ => ?_)
  refine congrArg (env.markLine h.pos.line >>= ·) (funext fun _ => ?_)
  refine congrArg (isCaught c.value f h >>= ·) (funext fun b => ?_)
  exact (action_if c b (run (.clause f h)) (handle f rest)).symm

theorem execution_stmt (s : Stmt) :
    env.execution c (.stmt s) =
      proceed ((first (env.told s) fun _ => perform s : Task env).action c) (pure ()) fun f =>
        (first (env.reported f) fun _ => complete (.raised f) : Task env).action c :=
  congrArg (fun x => proceed x (pure ()) fun f => do env.report f; fail f)
    (bind_assoc _ _ _).symm

theorem execution_whileRounds (test : Expr) (body orelse : List Stmt) (p : Position) :
    env.execution c (.whileRounds test body orelse p) =
      (first (env.truth test) fun b =>
        if b then round body p (.whileRounds test body orelse p) else block orelse).action c := by
  refine Eq.trans ?_ (bind_assoc _ _ _).symm
  refine congrArg (c.eval test >>= ·) (funext fun v => congrArg (read _ >>= ·) (funext fun b => ?_))
  rw [action_if]
  cases b with
  | false => rfl
  | true => exact congrArg (Action.round (c.block body)) (bind_assoc _ _ _).symm

theorem execution_forEnd (target : Expr) {items : Items} (body orelse : List Stmt) (p : Position)
    (h : items.next? = none) :
    env.execution c (.forRounds target items body orelse p) =
      (block orelse : Task env).action c := by
  dsimp only [Setting.execution, Setting.forRounds]
  rw [h]
  rfl

theorem execution_forItem (target : Expr) {items rest : Items} {v : Value}
    (body orelse : List Stmt) (p : Position) (h : items.next? = some (v, rest)) :
    env.execution c (.forRounds target items body orelse p) =
      (first (env.assigned target v) fun _ =>
        round body p (.forRounds target rest body orelse p)).action c := by
  dsimp only [Setting.execution, Setting.forRounds]
  rw [h]
  refine congrArg (_ >>= ·) (funext fun _ => ?_)
  exact congrArg (Action.round (c.block body)) (bind_assoc _ _ _).symm

theorem execution_clause (f : Failure) (h : Handler) :
    env.execution c (.clause f h) =
      (first (env.bound f h.name) fun _ => handling f h).action c :=
  (bind_assoc _ _ _).symm

theorem action_inFrame (frame : Frame) (body : List Stmt) :
    (do push frame; env.announce; env.markHeader; c.block body; result : Action σ Value) =
      (first (env.begun frame) fun _ => block body).action c >>= fun _ => result := by
  refine Eq.symm ((bind_assoc _ _ _).trans ((bind_assoc _ _ _).trans ?_))
  exact congrArg (push frame >>= ·) (funext fun _ => bind_assoc _ _ _)

/-! ### From the machine to the rules -/

/-- The machine does not end in this way, or the task completes so by the rules. -/
def Explains (task : Task env) (m : Machine σ) (r : Ending σ Unit) : Prop :=
  (∃ m', r = .unfinished m') ∨
    ∃ (o : Completion) (m' : Machine σ), m'.Settled ∧ r = o.ending m' ∧ Completes env task m o m'

theorem Explains.imp {task task' : Task env} {m m₁ : Machine σ} {r : Ending σ Unit}
    (h : task'.Explains m₁ r)
    (rule : ∀ {o m'}, Completes env task' m₁ o m' → Completes env task m o m') :
    task.Explains m r := by
  rcases h with unfinished | ⟨o, m', hm', ended, completes⟩
  · exact .inl unfinished
  · exact .inr ⟨o, m', hm', ended, rule completes⟩

/-- All that the machine comes to when requests are nested so deep is by the rules. -/
def Sound (n : Nat) (task : Task env) : Prop :=
  ∀ ⦃m : Machine σ⦄, m.Settled → task.Explains m (task.action (env.calls n) m)

namespace Sound

variable {n : Nat}

/-- A task that does the same as another one, by the rules too. -/
theorem of_eq {task task' : Task env} (h : task'.Sound n)
    (same : task.action (env.calls n) = task'.action (env.calls n))
    (rule : ∀ {m o m'}, Completes env task' m o m' → Completes env task m o m') :
    task.Sound n := by
  intro m hm
  rw [same]
  exact (h hm).imp rule

/-- A request that is answered as another task. -/
theorem of_execution {t : Execution} {task : Task env} (h : task.Sound n)
    (same : env.execution (env.calls n) t = task.action (env.calls n))
    (rule : ∀ {m o m'}, Completes env task m o m' → Completes env (run t) m o m') :
    (run t : Task env).Sound (n + 1) := by
  intro m hm
  change (run t : Task env).Explains m (env.execution (env.calls n) t m)
  rw [same]
  exact (h hm).imp rule

theorem complete (o : Completion) : (complete o : Task env).Sound n :=
  fun m hm => .inr ⟨o, m, hm, rfl, .complete o m⟩

theorem first {x : env.Shared α} {next : α → Task env} (h : ∀ a, (next a).Sound n) :
    (first x next).Sound n := by
  intro m hm
  have settled := x.settles n hm
  cases hx : x.action (env.calls n) m with
  | done a m' =>
    rw [hx] at settled
    have after : (Task.first x next).action (env.calls n) m = _ := bind_done hx
    rw [after]
    exact (h a settled).imp (.first ⟨n, hx⟩)
  | failed f m' =>
    rw [hx] at settled
    exact .inr ⟨.raised f, m', settled, bind_failed hx, .firstRaises ⟨n, hx⟩⟩
  | unfinished m' => exact .inl ⟨m', bind_unfinished hx⟩

theorem only (x : env.Shared Unit) : (only x).Sound n := first fun _ => complete .normal

section

variable (runs : ∀ t, (run t : Task env).Sound n)

include runs

theorem round (body : List Stmt) (p : Position) (again : Execution) :
    (round body p again : Task env).Sound n := by
  intro m hm
  have next : (Task.first (env.marked p) fun _ => .run again).Sound n := first fun _ => runs again
  rcases runs (.block body) hm with ⟨m', unfinished⟩ | ⟨o, m₁, hm₁, ended, completes⟩
  · exact .inl ⟨m', round_unfinished unfinished⟩
  · have after : (Task.round body p again : Task env).action (env.calls n) m = _ :=
      round_ending ended hm₁
    rw [after]
    cases o with
    | normal => exact (next hm₁).imp (.roundAgain completes (.inl rfl))
    | continued => exact (next hm₁).imp (.roundAgain completes (.inr rfl))
    | broken => exact .inr ⟨.normal, m₁, hm₁, rfl, .roundBroken completes⟩
    | returned v => exact .inr ⟨.returned v, m₁, hm₁, rfl, .roundReturns completes⟩
    | raised f => exact .inr ⟨.raised f, m₁, hm₁, rfl, .roundRaises completes⟩

theorem handle (f : Failure) (handlers : List Handler) :
    (handle f handlers : Task env).Sound n := by
  induction handlers with
  | nil => exact fun m hm => .inr ⟨.raised f, m, hm, rfl, .unhandled f m⟩
  | cons h rest ih =>
    have tried (b : Bool) :
        (if b then Task.run (.clause f h) else Task.handle f rest : Task env).Sound n := by
      cases b with
      | false => exact ih
      | true => exact runs _
    exact of_eq (first fun _ => first tried) (action_handle _ f h rest) .handle

theorem covered (body : List Stmt) (handlers : List Handler) (orelse : List Stmt) :
    (covered body handlers orelse : Task env).Sound n := by
  intro m hm
  rcases runs (.block body) hm with ⟨m', unfinished⟩ | ⟨o, m₁, hm₁, ended, completes⟩
  · exact .inl ⟨m', proceed_unfinished unfinished⟩
  · have after : (Task.covered body handlers orelse : Task env).action (env.calls n) m = _ :=
      proceed_ending ended hm₁ _
    rw [after]
    cases o with
    | normal => exact (runs (.block orelse) hm₁).imp (.bodyNormal handlers completes)
    | broken | continued | returned v =>
      exact .inr ⟨_, m₁, hm₁, rfl, .bodyJumps handlers orelse completes nofun nofun⟩
    | raised f =>
      by_cases caught : f.isCatchable = true ∧ handlers ≠ []
      · have tried : (f.isCatchable && !handlers.isEmpty) = true := by simpa using caught
        dsimp only [Completion.resume]
        rw [if_pos tried]
        exact (handle runs f handlers hm₁).imp (.bodyCaught orelse completes caught.1 caught.2)
      · have untried : ¬(f.isCatchable && !handlers.isEmpty) = true := by simpa using caught
        dsimp only [Completion.resume]
        rw [if_neg untried]
        refine .inr ⟨.raised f, m₁, hm₁, rfl, .bodyRaises orelse completes ?_⟩
        rwa [not_and_or, Bool.not_eq_true, not_not] at caught

theorem handling (f : Failure) (h : Handler) : (handling f h : Task env).Sound n := by
  intro m hm
  have hm' : ({ m with handling := f :: m.handling } : Machine σ).Settled := hm
  rcases runs (.block h.body) hm' with ⟨m', unfinished⟩ | ⟨o, m₁, hm₁, ended, completes⟩
  · exact .inl ⟨m', thenForget_unfinished (whileHandling_unfinished unfinished) h.name⟩
  · have left : ({ m₁ with handling := m₁.handling.tail } : Machine σ).Settled := hm₁
    exact .inr ⟨o, _, left.forget? h.name,
      thenForget_ending (whileHandling_ending ended) h.name, .handling completes⟩

/-- What a frame gives is by the rules. -/
theorem inFrame (frame : Frame) (body : List Stmt) {m : Machine σ} (hm : m.Settled) :
    let r := env.inFrame frame ((env.calls n).block body) m
    (∃ m', r = .unfinished m') ∨
      (∃ v m', m'.Settled ∧ r = .done v m' ∧
        Completes env (.activation frame body) m (.returned v) m') ∨
      ∃ f m', m'.Settled ∧ r = .failed f m' ∧
        Completes env (.activation frame body) m (.raised f) m' := by
  unfold Setting.inFrame
  by_cases deep : env.limits.maxDepth ≤ m.stack.size
  · rw [if_pos deep]
    exact .inr (.inr ⟨_, m, hm, rfl, .tooDeep frame body deep⟩)
  · rw [if_neg deep, action_inFrame]
    have room : m.stack.size < env.limits.maxDepth := Nat.lt_of_not_le deep
    have inner : (Task.first (env.begun frame) fun _ => .block body).Sound n :=
      first fun _ => runs _
    rcases inner hm with ⟨m', unfinished⟩ | ⟨o, m₁, hm₁, ended, completes⟩
    · refine .inl ⟨m', ?_⟩
      rw [bind_unfinished unfinished]
      rfl
    · rw [finish_result ended env hm₁]
      have settled := settled_finish env (o.ends_value hm₁)
      cases hr : env.finish (o.value m₁) with
      | unfinished m' => exact .inl ⟨m', rfl⟩
      | done v m' =>
        rw [hr] at settled
        exact .inr (.inl ⟨v, m', settled, rfl, .activation room completes hr⟩)
      | failed f m' =>
        rw [hr] at settled
        exact .inr (.inr ⟨f, m', settled, rfl, .activationRaises room completes hr⟩)

theorem activation (frame : Frame) (body : List Stmt) :
    (activation frame body : Task env).Sound n := by
  intro m hm
  rcases inFrame runs frame body hm with
    ⟨m', e⟩ | ⟨v, m', hm', e, completes⟩ | ⟨f, m', hm', e, completes⟩
  · exact .inl ⟨m', bind_unfinished e⟩
  · exact .inr ⟨.returned v, m', hm', bind_done e, completes⟩
  · exact .inr ⟨.raised f, m', hm', bind_failed e, completes⟩

theorem classBody (head : ClassHead) (body : List Stmt) (parts : ClassParts) :
    (classBody head body parts : Task env).Sound n := by
  intro m hm
  rcases inFrame runs (.ofClass head parts.scope) body hm with
    ⟨m', e⟩ | ⟨v, m', hm', e, completes⟩ | ⟨f, m', hm', e, completes⟩
  · exact .inl ⟨m', bind_unfinished (bind_unfinished e)⟩
  · have after : (Task.classBody head body parts).action (env.calls n) m = _ :=
      bind_done (bind_done e)
    rw [after, ← action_only]
    exact (only (env.classBound head parts) hm').imp (.classBody completes)
  · exact .inr ⟨.raised f, m', hm', bind_failed (bind_failed e), .classRaises completes⟩

theorem perform (s : Stmt) : (perform s : Task env).Sound n := by
  by_cases plain : s.isPlain = true
  · exact of_eq (only _) (action_plain _ plain) (.plain plain)
  · cases s with
    | classDef head body =>
      exact of_eq (first fun parts => classBody runs head body parts) (action_classDef _ head body)
        .classDef
    | ret value p =>
      cases value with
      | none => exact fun m hm => .inr ⟨.returned .none, m, hm, rfl, .ret p m⟩
      | some e =>
        exact of_eq (first (x := env.evaluated e) fun v => complete (.returned v)) rfl (.retValue p)
    | forLoop target iter body orelse p =>
      exact of_eq (first fun items => runs (.forRounds target items body orelse p))
        (action_forLoop _ target iter body orelse p) .forLoop
    | whileLoop test body orelse p =>
      exact of_eq (runs (.whileRounds test body orelse p)) rfl .whileLoop
    | cond test body orelse p =>
      exact of_eq (first fun b : Bool => runs (.block (if b then body else orelse)))
        (action_cond _ test body orelse p) (.cond p)
    | tryBlock body handlers orelse final p =>
      have inner := covered runs body handlers orelse
      by_cases empty : final = []
      · subst empty
        exact of_eq inner (action_tryOnly _ body orelse handlers p) (.tryOnly p)
      · intro m hm
        rw [action_tryFinally _ body orelse handlers p empty]
        rcases inner hm with ⟨m', unfinished⟩ | ⟨o, m₁, hm₁, ended, completes⟩
        · exact .inl ⟨m', lastly_unfinished unfinished⟩
        · rcases runs (.block final) hm₁ with ⟨m', unfinished⟩ | ⟨o', m₂, hm₂, ended', completes'⟩
          · exact .inl ⟨m', lastly_final_unfinished ended hm₁ unfinished⟩
          · exact .inr ⟨o.lastly o', m₂, hm₂, lastly_ending ended hm₁ ended' hm₂,
              .tryFinally p empty completes completes'⟩
    | brk p => exact fun m hm => .inr ⟨.broken, m, hm, rfl, .brk p m⟩
    | cont p => exact fun m hm => .inr ⟨.continued, m, hm, rfl, .cont p m⟩
    | _ => exact absurd rfl plain

/-- What requests nested one deeper come to. -/
theorem succ (t : Execution) : (run t : Task env).Sound (n + 1) := by
  cases t with
  | block body =>
    induction body with
    | nil => exact fun m hm => .inr ⟨.normal, m, hm, rfl, .emptyBlock m⟩
    | cons s rest ih =>
      intro m hm
      rcases runs (.stmt s) hm with ⟨m', unfinished⟩ | ⟨o, m₁, hm₁, ended, completes⟩
      · exact .inl ⟨m', proceed_unfinished unfinished⟩
      · have after : (Task.block (s :: rest) : Task env).action (env.calls (n + 1)) m = _ :=
          proceed_ending ended hm₁ _
        rw [after]
        cases o with
        | normal => exact (ih hm₁).imp (.nextStmt completes)
        | broken | continued | returned v | raised f =>
          exact .inr ⟨_, m₁, hm₁, rfl, .lastStmt completes nofun⟩
  | stmt s =>
    intro m hm
    have inner : (Task.first (env.told s) fun _ => .perform s).Sound n :=
      first fun _ => perform runs s
    change (Task.run (.stmt s)).Explains m (env.execution (env.calls n) (.stmt s) m)
    rw [execution_stmt]
    rcases inner hm with ⟨m', unfinished⟩ | ⟨o, m₁, hm₁, ended, completes⟩
    · exact .inl ⟨m', proceed_unfinished unfinished⟩
    · rw [proceed_ending ended hm₁]
      cases o with
      | normal | broken | continued | returned v =>
        exact .inr ⟨_, m₁, hm₁, rfl, .stmt completes nofun⟩
      | raised f =>
        have reported : (Task.first (env.reported f) fun _ => .complete (.raised f)).Sound n :=
          first fun _ => complete _
        exact (reported hm₁).imp (.stmtRaises completes)
  | whileRounds test body orelse p =>
    have tested (b : Bool) : (if b then Task.round body p (.whileRounds test body orelse p)
        else Task.block orelse : Task env).Sound n := by
      cases b with
      | false => exact runs _
      | true => exact round runs _ _ _
    exact of_execution (first tested) (execution_whileRounds _ test body orelse p) .whileRounds
  | forRounds target items body orelse p =>
    cases hi : items.next? with
    | none =>
      exact of_execution (runs (.block orelse)) (execution_forEnd _ target body orelse p hi)
        (.forEnd hi)
    | some next =>
      exact of_execution (first fun _ => round runs _ _ _)
        (execution_forItem _ target body orelse p hi) (.forItem hi)
  | clause f h =>
    exact of_execution (first fun _ => handling runs f h) (execution_clause _ f h) .clause

end

theorem run (n : Nat) (t : Execution) : (run t : Task env).Sound n := by
  induction n generalizing t with
  | zero => exact fun m _ => .inl ⟨m, rfl⟩
  | succ n ih => exact succ ih t

end Sound

end Task

/-! ### From the rules to the machine -/

open Filter

namespace Setting

/-- What a shared computation comes to it comes to with any number of steps from some one on. -/
theorem Comes.eventually {x : env.Shared α} {m : Machine σ} {r : Ending σ α} (h : env.Comes x m r)
    (finished : ∀ m', r ≠ .unfinished m') : ∀ᶠ n in atTop, x.action (env.calls n) m = r := by
  obtain ⟨k, rfl⟩ := h
  filter_upwards [eventually_ge_atTop k] with n hn
  rcases x.extends_of_le hn m with same | ⟨m', unfinished⟩
  · exact same.symm
  · exact absurd unfinished (finished m')

end Setting

/-- What requests come to that are answered as a task. -/
theorem Task.eventually_run {t : Execution} {m : Machine σ} {r : Ending σ Unit}
    (h : ∀ᶠ n in atTop, env.execution (env.calls n) t m = r) :
    ∀ᶠ n in atTop, (Task.run t : Task env).action (env.calls n) m = r := by
  obtain ⟨k, h⟩ := eventually_atTop.1 h
  refine eventually_atTop.2 ⟨k + 1, fun n hn => ?_⟩
  cases n with
  | zero => exact absurd hn (Nat.not_succ_le_zero k)
  | succ n => exact h n (Nat.le_of_succ_le_succ hn)

/-- The task ends so on the machine, with any number of steps from some one on. -/
def Task.Reaches (task : Task env) (m : Machine σ) (o : Completion) (m' : Machine σ) : Prop :=
  m'.Settled ∧ ∀ᶠ n in atTop, task.action (env.calls n) m = o.ending m'

namespace Task.Reaches

variable {m m' : Machine σ} {o : Completion}

theorem of_eq {task task' : Task env} (h : task'.Reaches m o m')
    (same : ∀ c, task.action c = task'.action c) : task.Reaches m o m' := by
  refine ⟨h.1, ?_⟩
  filter_upwards [h.2] with n e
  rw [same]
  exact e

theorem of_execution {t : Execution} {task : Task env} (h : task.Reaches m o m')
    (same : ∀ c, env.execution c t = task.action c) : (Task.run t : Task env).Reaches m o m' := by
  refine ⟨h.1, eventually_run ?_⟩
  filter_upwards [h.2] with n e
  rw [same]
  exact e

/-- What comes to pass without anything being asked for. -/
theorem of_forall {task : Task env} (hm : m'.Settled)
    (h : ∀ c, task.action c m = o.ending m') : task.Reaches m o m' :=
  ⟨hm, .of_forall fun _ => h _⟩

/-- What a frame gives, read off the task that is the frame. -/
theorem inFrame {frame : Frame} {body : List Stmt} (hm : m.Settled)
    (h : (Task.activation frame body : Task env).Reaches m o m') :
    ∀ᶠ n in atTop, env.inFrame frame ((env.calls n).block body) m = o.value m' := by
  filter_upwards [h.2] with n e
  have jumps : ((env.calls n).block body).Jumps :=
    (settling_calls env n).run (c := .top ⟨body⟩) trivial _ (Code.allows_body (.top ⟨body⟩))
  have settled := jumps.inFrame env frame hm
  cases hr : env.inFrame frame ((env.calls n).block body) m with
  | done v m₁ =>
    rw [hr] at settled
    have returned : (Completion.returned v).ending m₁ = o.ending m' := (bind_done hr).symm.trans e
    obtain ⟨rfl, rfl⟩ := Completion.ending_inj settled h.1 returned
    rfl
  | failed f m₁ =>
    rw [hr] at settled
    have raised : (Completion.raised f).ending m₁ = o.ending m' := (bind_failed hr).symm.trans e
    obtain ⟨rfl, rfl⟩ := Completion.ending_inj settled h.1 raised
    rfl
  | unfinished m₁ => exact absurd (e.symm.trans (bind_unfinished hr)) (o.ending_ne_unfinished _ _)

/-- What a frame gives whose body completes. -/
theorem finish {frame : Frame} {body : List Stmt} (room : m.stack.size < env.limits.maxDepth)
    (h : (Task.first (env.begun frame) fun _ => .block body).Reaches m o m') :
    ∀ᶠ n in atTop,
      env.inFrame frame ((env.calls n).block body) m = env.finish (o.value m') := by
  filter_upwards [h.2] with n e
  unfold Setting.inFrame
  rw [if_neg (Nat.not_le_of_lt room), Task.action_inFrame]
  exact finish_result e env h.1

end Task.Reaches

theorem Completes.reaches {task : Task env} {m m' : Machine σ} {o : Completion}
    (h : Completes env task m o m') (hm : m.Settled) : task.Reaches m o m' := by
  induction h with
  | complete o m => exact .of_forall hm fun _ => rfl
  | @first α x next m m₁ m₂ a o comes _ ih =>
    obtain ⟨n, hn⟩ := comes
    have settled := x.settles n hm
    rw [hn] at settled
    obtain ⟨hm₂, rest⟩ := ih settled
    refine ⟨hm₂, ?_⟩
    filter_upwards [Setting.Comes.eventually ⟨n, hn⟩ nofun, rest] with k e e'
    exact (bind_done e).trans e'
  | @firstRaises α x next m m₁ f comes =>
    obtain ⟨n, hn⟩ := comes
    have settled := x.settles n hm
    rw [hn] at settled
    refine ⟨settled, ?_⟩
    filter_upwards [Setting.Comes.eventually ⟨n, hn⟩ nofun] with k e
    exact bind_failed e
  | emptyBlock m => exact ⟨hm, Task.eventually_run (.of_forall fun _ => rfl)⟩
  | nextStmt _ _ ih ih' =>
    obtain ⟨hm₁, e⟩ := ih hm
    obtain ⟨hm₂, e'⟩ := ih' hm₁
    refine ⟨hm₂, Task.eventually_run ?_⟩
    filter_upwards [e, (tendsto_add_atTop_nat 1).eventually e'] with n e e'
    exact (proceed_ending e hm₁ _).trans e'
  | lastStmt _ abrupt ih =>
    obtain ⟨hm₁, e⟩ := ih hm
    refine ⟨hm₁, Task.eventually_run ?_⟩
    filter_upwards [e] with n e
    exact (proceed_ending e hm₁ _).trans (Completion.resume_fail abrupt _ _)
  | stmt _ calm ih =>
    obtain ⟨hm₁, e⟩ := ih hm
    refine ⟨hm₁, Task.eventually_run ?_⟩
    filter_upwards [e] with n e
    rw [Task.execution_stmt]
    exact (proceed_ending e hm₁ _).trans (Completion.resume_pure calm _ _)
  | stmtRaises _ _ ih ih' =>
    obtain ⟨hm₁, e⟩ := ih hm
    obtain ⟨hm₂, e'⟩ := ih' hm₁
    refine ⟨hm₂, Task.eventually_run ?_⟩
    filter_upwards [e, e'] with n e e'
    rw [Task.execution_stmt]
    exact (proceed_ending e hm₁ _).trans e'
  | plain h _ ih => exact (ih hm).of_eq fun c => Task.action_plain c h
  | ret p m => exact .of_forall hm fun _ => rfl
  | retValue p _ ih => exact (ih hm).of_eq fun _ => rfl
  | brk p m => exact .of_forall hm fun _ => rfl
  | cont p m => exact .of_forall hm fun _ => rfl
  | cond p _ ih => exact (ih hm).of_eq fun c => Task.action_cond c _ _ _ p
  | classDef _ ih => exact (ih hm).of_eq fun c => Task.action_classDef c _ _
  | whileLoop _ ih => exact (ih hm).of_eq fun _ => rfl
  | whileRounds _ ih =>
    exact (ih hm).of_execution fun c => Task.execution_whileRounds c _ _ _ _
  | forLoop _ ih => exact (ih hm).of_eq fun c => Task.action_forLoop c _ _ _ _ _
  | forEnd last _ ih =>
    exact (ih hm).of_execution fun c => Task.execution_forEnd c _ _ _ _ last
  | forItem next _ ih =>
    exact (ih hm).of_execution fun c => Task.execution_forItem c _ _ _ _ next
  | roundAgain _ which _ ih ih' =>
    obtain ⟨hm₁, e⟩ := ih hm
    obtain ⟨hm₂, e'⟩ := ih' hm₁
    refine ⟨hm₂, ?_⟩
    filter_upwards [e, e'] with n e e'
    apply (round_ending e hm₁).trans
    rcases which with rfl | rfl
    · exact e'
    · exact e'
  | roundBroken _ ih | roundReturns _ ih | roundRaises _ ih =>
    obtain ⟨hm₁, e⟩ := ih hm
    refine ⟨hm₁, ?_⟩
    filter_upwards [e] with n e
    exact round_ending e hm₁
  | tryOnly p _ ih => exact (ih hm).of_eq fun c => Task.action_tryOnly c _ _ _ p
  | tryFinally p nonempty _ _ ih ih' =>
    obtain ⟨hm₁, e⟩ := ih hm
    obtain ⟨hm₂, e'⟩ := ih' hm₁
    refine ⟨hm₂, ?_⟩
    filter_upwards [e, e'] with n e e'
    rw [Task.action_tryFinally _ _ _ _ p nonempty]
    exact lastly_ending e hm₁ e' hm₂
  | bodyNormal handlers _ _ ih ih' =>
    obtain ⟨hm₁, e⟩ := ih hm
    obtain ⟨hm₂, e'⟩ := ih' hm₁
    refine ⟨hm₂, ?_⟩
    filter_upwards [e, e'] with n e e'
    exact (proceed_ending e hm₁ _).trans e'
  | bodyJumps handlers orelse _ abrupt calm ih =>
    obtain ⟨hm₁, e⟩ := ih hm
    refine ⟨hm₁, ?_⟩
    filter_upwards [e] with n e
    exact (proceed_ending e hm₁ _).trans (Completion.resume_jump abrupt calm _ _ _)
  | @bodyCaught body handlers orelse m m₁ m₂ f o _ catchable nonempty _ ih ih' =>
    obtain ⟨hm₁, e⟩ := ih hm
    obtain ⟨hm₂, e'⟩ := ih' hm₁
    have tried : (f.isCatchable && !handlers.isEmpty) = true := by simp [catchable, nonempty]
    refine ⟨hm₂, ?_⟩
    filter_upwards [e, e'] with n e e'
    apply (proceed_ending e hm₁ _).trans
    dsimp only [Completion.resume]
    rw [if_pos tried]
    exact e'
  | @bodyRaises body handlers orelse m m₁ f _ untried ih =>
    obtain ⟨hm₁, e⟩ := ih hm
    have passed : ¬(f.isCatchable && !handlers.isEmpty) = true := by
      rcases untried with uncatchable | rfl
      · simp [uncatchable]
      · simp
    refine ⟨hm₁, ?_⟩
    filter_upwards [e] with n e
    apply (proceed_ending e hm₁ _).trans
    dsimp only [Completion.resume]
    rw [if_neg passed]
    rfl
  | unhandled f m => exact .of_forall hm fun _ => rfl
  | handle _ ih => exact (ih hm).of_eq fun c => Task.action_handle c _ _ _
  | clause _ ih => exact (ih hm).of_execution fun c => Task.execution_clause c _ _
  | @handling f h m m₁ o _ ih =>
    obtain ⟨hm₁, e⟩ := ih hm
    have left : ({ m₁ with handling := m₁.handling.tail } : Machine σ).Settled := hm₁
    refine ⟨left.forget? h.name, ?_⟩
    filter_upwards [e] with n e
    exact thenForget_ending (whileHandling_ending e) h.name
  | tooDeep frame body deep =>
    refine .of_forall hm fun c => bind_failed ?_
    unfold Setting.inFrame
    exact if_pos deep
  | @activation frame body m m₁ m₂ o v room _ finished ih =>
    have ended := ih hm
    have settled := settled_finish env (o.ends_value ended.1)
    rw [finished] at settled
    refine ⟨settled, ?_⟩
    filter_upwards [ended.finish room] with n e
    exact bind_done (e.trans finished)
  | @activationRaises frame body m m₁ m₂ o f room _ finished ih =>
    have ended := ih hm
    have settled := settled_finish env (o.ends_value ended.1)
    rw [finished] at settled
    refine ⟨settled, ?_⟩
    filter_upwards [ended.finish room] with n e
    exact bind_failed (e.trans finished)
  | @classBody head body parts m m₁ m₂ v o _ _ ih ih' =>
    have made := ih hm
    obtain ⟨hm₂, e'⟩ := ih' made.1
    refine ⟨hm₂, ?_⟩
    filter_upwards [made.inFrame hm, e'] with n e e'
    rw [Task.action_only] at e'
    have after : (Task.classBody head body parts).action (env.calls n) m = _ :=
      bind_done (bind_done e)
    exact after.trans e'
  | classRaises _ ih =>
    have made := ih hm
    refine ⟨made.1, ?_⟩
    filter_upwards [made.inFrame hm] with n e
    exact bind_failed (bind_failed e)

/-! ### Both ways -/

namespace Completes

variable {m m₁ m₂ : Machine σ} {body : List Stmt}

/-- Whatever the rules say a task comes to, they say one thing only. -/
theorem unique {task : Task env} {o o' : Completion} (h : Completes env task m o m₁)
    (h' : Completes env task m o' m₂) (hm : m.Settled) : o = o' ∧ m₁ = m₂ := by
  obtain ⟨hm₁, e⟩ := h.reaches hm
  obtain ⟨hm₂, e'⟩ := h'.reaches hm
  obtain ⟨n, e, e'⟩ := (e.and e').exists
  exact Completion.ending_inj hm₁ hm₂ (e.symm.trans e')

/-- What the machine comes to with some number of steps is by the rules. -/
theorem of_ending {task : Task env} {n : Nat} {o : Completion} (sound : task.Sound n)
    (hm : m.Settled) (hm₁ : m₁.Settled) (h : task.action (env.calls n) m = o.ending m₁) :
    Completes env task m o m₁ := by
  rcases sound hm with ⟨m', unfinished⟩ | ⟨o', m', hm', ended, completes⟩
  · exact absurd (h.symm.trans unfinished) (o.ending_ne_unfinished _ _)
  · obtain ⟨rfl, rfl⟩ := Completion.ending_inj hm₁ hm' (h.symm.trans ended)
    exact completes

theorem block_iff (hm : m.Settled) {o : Completion} :
    Completes env (.block body) m o m₁ ↔
      m₁.Settled ∧ ∃ n, env.execute n (.block body) m = o.ending m₁ := by
  constructor
  · intro h
    obtain ⟨hm₁, e⟩ := h.reaches hm
    exact ⟨hm₁, e.exists⟩
  · rintro ⟨hm₁, n, e⟩
    exact of_ending (.run n _) hm hm₁ e

theorem returned_iff (hm : m.Settled) {frame : Frame} {v : Value} :
    Completes env (.activation frame body) m (.returned v) m₁ ↔
      ∃ n, env.inFrame frame (env.execute n (.block body)) m = .done v m₁ := by
  constructor
  · intro h
    exact ((h.reaches hm).inFrame hm).exists
  · rintro ⟨n, e⟩
    rcases Task.Sound.inFrame (fun t => .run n t) frame body hm with
      ⟨m', e'⟩ | ⟨v', m', hm', e', completes⟩ | ⟨f, m', hm', e', completes⟩
    · exact absurd (e.symm.trans e') nofun
    · obtain ⟨rfl, rfl⟩ := Ending.done.inj (e.symm.trans e')
      exact completes
    · exact absurd (e.symm.trans e') nofun

theorem raised_iff (hm : m.Settled) {frame : Frame} {f : Failure} :
    Completes env (.activation frame body) m (.raised f) m₁ ↔
      ∃ n, env.inFrame frame (env.execute n (.block body)) m = .failed f m₁ := by
  constructor
  · intro h
    exact ((h.reaches hm).inFrame hm).exists
  · rintro ⟨n, e⟩
    rcases Task.Sound.inFrame (fun t => .run n t) frame body hm with
      ⟨m', e'⟩ | ⟨v', m', hm', e', completes⟩ | ⟨f', m', hm', e', completes⟩
    · exact absurd (e.symm.trans e') nofun
    · exact absurd (e.symm.trans e') nofun
    · obtain ⟨rfl, rfl⟩ := Ending.failed.inj (e.symm.trans e')
      exact completes

end Completes

/-- Running refines the rules. From a machine with nothing under way a block that ends has completed
in exactly one way: normally, with a jump to be made, with a value to be returned, or with an
exception and no jump. It ends so just if it completes so by the rules; and the same holds of what a
frame gives whose body the block is. -/
theorem execute_refines (env : Setting σ) (body : List Stmt) {m : Machine σ} (hm : m.Settled) :
    (∀ n, (∃ m', env.execute n (.block body) m = .unfinished m') ∨
      ∃! q : Completion × Machine σ,
        q.2.Settled ∧ env.execute n (.block body) m = q.1.ending q.2) ∧
    (∀ o m', Completes env (.block body) m o m' ↔
      m'.Settled ∧ ∃ n, env.execute n (.block body) m = o.ending m') ∧
    (∀ o o' m₁ m₂, Completes env (.block body) m o m₁ → Completes env (.block body) m o' m₂ →
      o = o' ∧ m₁ = m₂) ∧
    ∀ frame m', (∀ v, Completes env (.activation frame body) m (.returned v) m' ↔
        ∃ n, env.inFrame frame (env.execute n (.block body)) m = .done v m') ∧
      ∀ f, Completes env (.activation frame body) m (.raised f) m' ↔
        ∃ n, env.inFrame frame (env.execute n (.block body)) m = .failed f m' := by
  refine ⟨fun n => ?ends, fun o m' => Completes.block_iff hm, fun o o' m₁ m₂ h h' => h.unique h' hm,
    fun frame m' => ⟨fun v => Completes.returned_iff hm, fun f => Completes.raised_iff hm⟩⟩
  have sound : (Task.block body : Task env).Sound n := .run n _
  rcases sound hm with unfinished | ⟨o, m', hm', ended, -⟩
  · exact .inl unfinished
  · refine .inr ⟨(o, m'), ⟨hm', ended⟩, ?_⟩
    rintro ⟨o', m''⟩ ⟨hm'', ended'⟩
    obtain ⟨rfl, rfl⟩ := Completion.ending_inj hm'' hm' (ended'.symm.trans ended)
    rfl

/-- A loop whose body returns a value and has a finally block that leaves the loop: the value is
dropped and the loop completes normally. -/
theorem execute_refines_return :
    let env : Setting Unit := ⟨.default, .steady, none⟩
    let body : List Stmt :=
      [.whileLoop (.const (.bool true) .start)
        [.tryBlock [.ret (some (.const (.int 1) .start)) .start] [] [] [.brk .start] .start]
        [] .start]
    (Machine.initial ()).Settled ∧
      ∃ m', Completes env (.block body) (Machine.initial ()) .normal m' := by
  intro env body
  have settled : (Machine.initial ()).Settled := ⟨rfl, rfl⟩
  have ended : ((env.execute 10 (.block body) (Machine.initial ())).completion?.any
      (·.ctorIdx == Completion.normal.ctorIdx)) = true := by decide +kernel
  obtain ⟨exits, agrees, -⟩ := execute_refines env body settled
  rcases exits 10 with ⟨m', unfinished⟩ | ⟨⟨o, m'⟩, ⟨hm', ended'⟩, -⟩
  · rw [unfinished] at ended
    exact absurd ended Bool.false_ne_true
  · rw [ended', o.completion?_ending hm'] at ended
    obtain rfl : o = .normal := by
      cases o with
      | normal => rfl
      | broken | continued | returned v | raised f => exact absurd ended Bool.false_ne_true
    exact ⟨settled, m', (agrees _ _).2 ⟨hm', 10, ended'⟩⟩

end

end Footprint
