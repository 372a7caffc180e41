import Footprint.Proofs.Probe
import Footprint.Proofs.Scenes

set_option autoImplicit false

/-!
A computation that may take notes beside one that takes none. As long as no note is taken the two do
the same; after the first one they may differ as they like.
-/

namespace Footprint

section

variable {ω ε α β : Type}

/-- How many notes have been taken. -/
def Machine.marks (m : Machine (Monitors (ω × List ε))) : Nat := m.monitor.notes.length

namespace Action

/-- The computation takes no notes. -/
def Still (y : Action (Monitors (ω × List ε)) α) : Prop := ∀ m, (y m).machine.marks = m.marks

namespace Still

theorem pure (a : α) : Still (pure a : Action (Monitors (ω × List ε)) α) := fun _ => rfl

theorem bind {y : Action (Monitors (ω × List ε)) α}
    {f : α → Action (Monitors (ω × List ε)) β} (hy : Still y) (hf : ∀ a, Still (f a)) :
    Still (y >>= f) := by
  intro m
  have first := hy m
  rw [bind_apply]
  cases hr : y m with
  | done a n =>
    rw [hr] at first
    exact (hf a n).trans first
  | failed e n | unfinished n =>
    rw [hr] at first
    exact first

theorem observe (f : Store → Option (Except Failure α)) :
    Still (observe f : Action (Monitors (ω × List ε)) α) := by
  intro m
  unfold Action.observe
  split <;> rfl

theorem editAt (p : Position) (plan : Store → Except Fault (Edit α)) :
    Still (editAt p plan : Action (Monitors (ω × List ε)) α) := by
  intro m
  unfold Action.editAt
  split <;> rfl

theorem reraise (p : Position) : Still (reraise p : Action (Monitors (ω × List ε)) Unit) := by
  intro m
  unfold Action.reraise
  split <;> rfl

theorem result : Still (result : Action (Monitors (ω × List ε)) Value) := by
  intro m
  rw [result_apply]
  split <;> rfl

theorem checkDeadline (env : Setting (Monitors (ω × List ε))) : Still env.checkDeadline := by
  intro m
  obtain ⟨timer, same | ⟨missed, same⟩⟩ := env.checkDeadline_apply m <;> rw [same] <;> rfl

variable {env : Setting (Monitors (ω × List ε))}
  (quiet : ∀ f d e μ, (env.hear f d e μ).2.notes = μ.notes)

include quiet

theorem ask (e : Event) : Still (env.ask e) := by
  intro m
  rw [Setting.ask_eq_hear]
  cases m.stack.back? with
  | none => rfl
  | some f =>
    have heard := congrArg List.length (quiet f m.stack.size e m.monitor)
    dsimp only
    cases hr : env.hear f m.stack.size e m.monitor with
    | mk answer μ =>
      rw [hr] at heard
      cases answer <;> exact heard

theorem tell (e : Event) : Still (env.tell e) := (ask quiet e).bind fun _ => pure ()

theorem announce : Still env.announce := by
  refine (ask quiet .call).bind fun answer => ?_
  split
  · exact fun _ => rfl
  · exact pure ()

theorem markLine (n : Nat) : Still (env.markLine n) :=
  (checkDeadline env).bind fun _ => bind (fun _ => rfl) fun _ => tell quiet .line

theorem markHeader : Still env.markHeader := by
  refine bind (fun _ => rfl) fun f => ?_
  split
  · exact markLine quiet _
  · exact pure ()

theorem report (f : Failure) : Still (env.report f) := by
  refine bind (fun _ => rfl) fun frame => ?_
  split
  · exact bind (fun _ => rfl) fun _ => tell quiet .exception
  · exact pure ()

theorem finish (r : Ending (Monitors (ω × List ε)) Value) :
    (env.finish r).machine.marks = r.machine.marks := by
  unfold Setting.finish
  cases r with
  | unfinished m => rfl
  | done v m | failed f m =>
    have told := tell quiet .ret { m with jump := .none }
    dsimp only
    cases hr : env.tell .ret { m with jump := .none } <;> rw [hr] at told <;> exact told

end Still

/-- The second computation takes no note back, and if it takes none it comes to what the first one
comes to. -/
structure Unmarked (x : Action (Monitors ω) α) (y : Action (Monitors (ω × List ε)) α) :
    Prop where
  grows (m : Machine (Monitors (ω × List ε))) : m.marks ≤ (y m).machine.marks
  same {m : Machine (Monitors ω)} {m' : Machine (Monitors (ω × List ε))} :
    m.Alike (.noted ω ε) m' → (y m').machine.marks = m'.marks → (x m).Alike (.noted ω ε) (y m')

namespace Unmarked

theorem of_alike {x : Action (Monitors ω) α} {y : Action (Monitors (ω × List ε)) α}
    (alike : Action.Alike (.noted ω ε) x y) (still : Still y) : Unmarked x y :=
  ⟨fun m => Nat.le_of_eq (still m).symm, fun hm _ => alike hm⟩

/-- What goes on after a computation, whichever way it has ended. -/
theorem after {x : Action (Monitors ω) α} {y : Action (Monitors (ω × List ε)) α}
    {x' : Action (Monitors ω) β} {y' : Action (Monitors (ω × List ε)) β} (h : Unmarked x y)
    (grows : ∀ m, (y m).machine.marks ≤ (y' m).machine.marks)
    (same : ∀ ⦃m m'⦄, (x m).Alike (.noted ω ε) (y m') →
      (y' m').machine.marks = (y m').machine.marks → (x' m).Alike (.noted ω ε) (y' m')) :
    Unmarked x' y' := by
  refine ⟨fun m => Nat.le_trans (h.grows m) (grows m), fun {m m'} hm none => ?_⟩
  -- no note has been taken up to where it goes on
  have begun : (y m').machine.marks = m'.marks :=
    Nat.le_antisymm (none ▸ grows m') (h.grows m')
  exact same (h.same hm begun) (none.trans begun.symm)

theorem bind {x : Action (Monitors ω) α} {y : Action (Monitors (ω × List ε)) α}
    {f : α → Action (Monitors ω) β} {g : α → Action (Monitors (ω × List ε)) β}
    (h : Unmarked x y) (hf : ∀ a, Unmarked (f a) (g a)) : Unmarked (x >>= f) (y >>= g) := by
  refine h.after (fun m => ?_) fun m m' alike none => ?_
  · rw [bind_apply]
    cases y m with
    | done a n => exact (hf a).grows n
    | failed e n | unfinished n => exact Nat.le_refl _
  · rw [bind_apply] at none ⊢
    rw [bind_apply]
    generalize x m = r, y m' = r' at alike none
    cases alike with
    | done a hn => exact (hf a).same hn none
    | failed e hn => exact .failed e hn
    | unfinished hn => exact .unfinished hn

theorem proceed {x y : Action (Monitors ω) Unit} {x' y' : Action (Monitors (ω × List ε)) Unit}
    {h : Failure → Action (Monitors ω) Unit} {h' : Failure → Action (Monitors (ω × List ε)) Unit}
    (hx : Unmarked x x') (hy : Unmarked y y') (hh : ∀ f, Unmarked (h f) (h' f)) :
    Unmarked (proceed x y h) (proceed x' y' h') := by
  refine hx.after (fun m => ?_) fun m m' alike none => ?_
  · unfold Action.proceed
    cases x' m with
    | done a n =>
      dsimp only
      split
      · exact hy.grows n
      · exact Nat.le_refl _
    | failed e n => exact (hh e).grows n
    | unfinished n => exact Nat.le_refl _
  · unfold Action.proceed at none ⊢
    generalize x m = r, x' m' = r' at alike none
    cases alike with
    | @done _ n n' hn =>
      dsimp only at none ⊢
      by_cases jump : n'.jump = .none
      · rw [if_pos jump] at none ⊢
        rw [if_pos (hn.jump.trans jump)]
        exact hy.same hn none
      · rw [if_neg jump, if_neg (hn.jump ▸ jump)]
        exact .done () hn
    | failed e hn => exact (hh e).same hn none
    | unfinished hn => exact .unfinished hn

theorem round {x y : Action (Monitors ω) Unit} {x' y' : Action (Monitors (ω × List ε)) Unit}
    (hx : Unmarked x x') (hy : Unmarked y y') : Unmarked (round x y) (round x' y') := by
  refine hx.after (fun m => ?_) fun m m' alike none => ?_
  · unfold Action.round
    cases x' m with
    | done a n =>
      dsimp only
      cases n.jump with
      | none => exact hy.grows n
      | cont => exact hy.grows { n with jump := .none }
      | brk | ret => exact Nat.le_refl _
    | failed e n | unfinished n => exact Nat.le_refl _
  · unfold Action.round at none ⊢
    generalize x m = r, x' m' = r' at alike none
    cases alike with
    | @done _ n n' hn =>
      dsimp only at none ⊢
      rw [hn.jump]
      cases jump : n'.jump with
      | none =>
        rw [jump] at none
        exact hy.same hn none
      | cont =>
        rw [jump] at none
        exact hy.same (hn.withJump .none) none
      | brk => exact .done () (hn.withJump .none)
      | ret => exact .done () hn
    | failed e hn => exact .failed e hn
    | unfinished hn => exact .unfinished hn

/-- What is put around a computation takes no notes of its own. -/
theorem wrapped {x : Action (Monitors ω) α} {y : Action (Monitors (ω × List ε)) α}
    {around : Action (Monitors ω) α → Action (Monitors ω) β}
    {around' : Action (Monitors (ω × List ε)) α → Action (Monitors (ω × List ε)) β}
    (h : Unmarked x y) (first : Machine (Monitors ω) → Machine (Monitors ω))
    (first' : Machine (Monitors (ω × List ε)) → Machine (Monitors (ω × List ε)))
    (alike : ∀ {x y}, Action.Alike (.noted ω ε) x y →
      Action.Alike (.noted ω ε) (around x) (around' y))
    (begun : ∀ {m m'}, m.Alike (.noted ω ε) m' → (first m).Alike (.noted ω ε) (first' m'))
    (at_first : ∀ x m, around x m = around (fun _ => x (first m)) m)
    (at_first' : ∀ y m, around' y m = around' (fun _ => y (first' m)) m)
    (marks : ∀ y m, (around' y m).machine.marks = (y (first' m)).machine.marks)
    (marks_first : ∀ m, (first' m).marks = m.marks) : Unmarked (around x) (around' y) := by
  constructor
  · intro m
    rw [marks, ← marks_first]
    exact h.grows _
  · intro m m' hm none
    have inner := h.same (begun hm) (((marks y m').symm.trans none).trans (marks_first m').symm)
    rw [at_first, at_first']
    exact alike (fun _ _ _ => inner) hm

theorem backAt {x : Action (Monitors ω) α} {y : Action (Monitors (ω × List ε)) α} (p : Position)
    (h : Unmarked x y) : Unmarked (backAt p x) (backAt p y) := by
  apply h.wrapped id id (fun h => Action.Alike.backAt h p) id
    (fun _ _ => rfl) (fun _ _ => rfl) _ fun _ => rfl
  intro y m
  unfold Action.backAt
  dsimp only [id]
  cases y m <;> rfl

theorem whileHandling {x : Action (Monitors ω) Unit} {y : Action (Monitors (ω × List ε)) Unit}
    (f : Failure) (h : Unmarked x y) : Unmarked (whileHandling f x) (whileHandling f y) := by
  apply h.wrapped (fun m => { m with handling := f :: m.handling })
    (fun m => { m with handling := f :: m.handling })
    (fun h => Action.Alike.whileHandling h f) (fun hm => { hm with handling := by rw [hm.handling] })
    (fun _ _ => rfl) (fun _ _ => rfl) _ fun _ => rfl
  intro y m
  unfold Action.whileHandling
  cases y { m with handling := f :: m.handling } <;> rfl

theorem marks_forget (m : Machine (Monitors (ω × List ε))) (name : String) :
    (m.forget name).marks = m.marks := by
  rw [Machine.forget_eq]
  split <;> rfl

theorem thenForget {x : Action (Monitors ω) Unit} {y : Action (Monitors (ω × List ε)) Unit}
    (name : Option String) (h : Unmarked x y) :
    Unmarked (thenForget name x) (thenForget name y) := by
  cases name with
  | none => exact h
  | some n =>
    apply h.wrapped id id (fun h => Action.Alike.thenForget h (some n)) id
      (fun _ _ => rfl) (fun _ _ => rfl) _ fun _ => rfl
    intro y m
    unfold Action.thenForget
    dsimp only [id]
    cases y m with
    | done a m' | failed e m' => exact marks_forget m' n
    | unfinished m' => rfl

theorem inHostFrame {x : Action (Monitors ω) Value} {y : Action (Monitors (ω × List ε)) Value}
    (h : Unmarked x y) : Unmarked (inHostFrame x) (inHostFrame y) := by
  apply h.wrapped (fun m => { m with stack := m.stack.push .host })
    (fun m => { m with stack := m.stack.push .host }) Action.Alike.inHostFrame
    (fun hm => hm.push .host) (fun _ _ => rfl) (fun _ _ => rfl) _ fun _ => rfl
  intro y m
  unfold Action.inHostFrame
  cases y { m with stack := m.stack.push .host } <;> rfl

/-- A finally block after which the jump put aside, and what was pending, stand. -/
theorem putAside {x : Action (Monitors ω) Unit} {y : Action (Monitors (ω × List ε)) Unit}
    (h : Unmarked x y) {pending : Machine (Monitors ω) → Ending (Monitors ω) Unit}
    {pending' : Machine (Monitors (ω × List ε)) → Ending (Monitors (ω × List ε)) Unit}
    (alike : Action.Alike (.noted ω ε) pending pending')
    (still : ∀ m, (pending' m).machine.marks = m.marks) :
    Unmarked (putAside x pending) (putAside y pending') := by
  apply h.wrapped (fun m => { m with jump := .none, returned := .none })
    (fun m => { m with jump := .none, returned := .none })
    (fun h => Action.Alike.putAside h alike) (fun hm => (hm.withJump .none).withReturned .none)
    (fun _ _ => rfl) (fun _ _ => rfl) _ fun _ => rfl
  intro y m
  rw [putAside_apply]
  cases y { m with jump := .none, returned := .none } with
  | done a n =>
    dsimp only
    split
    · exact still _
    · rfl
  | failed e n | unfinished n => rfl

theorem lastly {x y : Action (Monitors ω) Unit} {x' y' : Action (Monitors (ω × List ε)) Unit}
    (hx : Unmarked x x') (hy : Unmarked y y') : Unmarked (lastly x y) (lastly x' y') := by
  have ended : Unmarked (Action.putAside y (.done ())) (Action.putAside y' (.done ())) :=
    hy.putAside (fun _ _ h => .done () h) fun _ => rfl
  have failed (f : Failure) :
      Unmarked (Action.putAside y (.failed f)) (Action.putAside y' (.failed f)) :=
    hy.putAside (fun _ _ h => .failed f h) fun _ => rfl
  refine hx.after (fun m => ?_) fun m m' alike none => ?_
  · unfold Action.lastly
    cases x' m with
    | done a n => exact ended.grows n
    | failed e n => exact (failed e).grows n
    | unfinished n => exact Nat.le_refl _
  · unfold Action.lastly at none ⊢
    generalize x m = r, x' m' = r' at alike none
    cases alike with
    | done a hn => exact ended.same hn none
    | failed e hn => exact (failed e).same hn none
    | unfinished hn => exact .unfinished hn

/-! ### Frames and requests -/

variable {env : Setting (Monitors ω)} {env' : Setting (Monitors (ω × List ε))}
  (alike : env.Alike (.noted ω ε) env')
  (quiet : ∀ f d e μ, (env'.hear f d e μ).2.notes = μ.notes)

include alike quiet

theorem inFrame (frame : Frame) {x : Action (Monitors ω) Unit}
    {y : Action (Monitors (ω × List ε)) Unit} (h : Unmarked x y) :
    Unmarked (env.inFrame frame x) (env'.inFrame frame y) := by
  have whole : Unmarked (do push frame; env.announce; env.markHeader; x; result)
      (do push frame; env'.announce; env'.markHeader; y; result) :=
    (of_alike (fun _ _ hm => .done () (hm.push frame)) fun _ => rfl).bind fun _ =>
      (of_alike alike.announce (.announce quiet)).bind fun _ =>
        (of_alike alike.markHeader (.markHeader quiet)).bind fun _ =>
          h.bind fun _ => of_alike .result .result
  constructor
  · intro m
    unfold Setting.inFrame
    split
    · exact Nat.le_refl _
    · rw [Still.finish quiet]
      exact whole.grows m
  · intro m m' hm none
    unfold Setting.inFrame at none ⊢
    rw [alike.limits, hm.depth, hm.pos]
    split at none
    · next limit =>
      rw [if_pos limit, if_pos limit]
      exact .failed _ hm
    · next free =>
      rw [if_neg free, if_neg free]
      rw [Still.finish quiet] at none
      exact alike.finish (whole.same hm none)

/-- The relation between computations that take no notes and others that may. -/
def relation (ω ε : Type) : RunRelation (Monitors ω) (Monitors (ω × List ε)) where
  known _ := True
  expr _ _ := Unmarked
  stmt _ := Unmarked
  final _ := Unmarked

theorem closed : (relation ω ε).Closed env env' where
  pure _ _ a := of_alike (.pure a) (.pure a)
  bind := bind
  observe _ _ f := of_alike (.observe f) (.observe f)
  editAt _ _ p plan _ := of_alike (.editAt p plan) (.editAt p plan)
  newFunction _ _ _ := of_alike (.edit _) fun _ => rfl
  frameKind _ := of_alike .frameKind fun _ => rfl
  getPos _ := of_alike .getPos fun _ => rfl
  setPos _ p := of_alike (.setPos p) fun _ => rfl
  write _ text := of_alike (.write text) fun _ => rfl
  reraise _ p := of_alike (.reraise p) (.reraise p)
  checkDeadline _ := of_alike alike.checkDeadline (.checkDeadline env')
  markLine _ := of_alike (alike.markLine _) (.markLine quiet _)
  lookup _ _ _ h := (of_alike (.observe _) (.observe _)).bind fun found => h found fun _ _ => trivial
  inFrame _ _ h := inFrame alike quiet _ h
  backAt p h := h.backAt p
  known_classBody _ _ := trivial
  ofExpr h := h
  andThen := bind
  setJump _ j := of_alike (.setJump j) fun _ => rfl
  giveBack _ v := of_alike (.giveBack v) fun _ => rfl
  proceed hx hy hh _ := proceed hx hy hh
  round := round
  lastly := lastly

theorem encloses : (relation ω ε).Encloses env env' where
  reporting {c} _ _ hx := (closed alike quiet).reporting (c := c)
    (fun f => of_alike (alike.report f) (.report quiet f)) hx
  clause f name _ _ hx := by
    have bound : Unmarked (bindCaught f name) (bindCaught f name) :=
      ((closed alike quiet).steps (.top ⟨[]⟩)).bindCaught f name
    exact (of_alike (.setReported false) fun _ => rfl).bind fun _ => bound.bind fun _ =>
      (hx.whileHandling f).thenForget name

end Unmarked

end Action

end

end Footprint
