import Footprint.Proofs.RunRelation
import Footprint.Session.Interpreter

set_option autoImplicit false

/-!
Machines that differ in the states of their listeners only, and maybe in which of their frames are
traced. If telling events keeps them alike, so does all that is run on them.
-/

namespace Footprint

/-- A view of frames; it shows at least everything but whether they are traced. -/
structure FrameView where
  see : Frame → Frame
  see_eq (f : Frame) : ∃ traced, see f = { f with traced }
  see_line (f : Frame) (line : Nat) : see { f with line } = { see f with line }
  see_reported (f : Frame) (reported : Bool) : see { f with reported } = { see f with reported }

namespace FrameView

/-- All of a frame. -/
def whole : FrameView := ⟨id, fun f => ⟨f.traced, rfl⟩, fun _ _ => rfl, fun _ _ => rfl⟩

/-- All of a frame but whether it is traced. -/
def untraced : FrameView :=
  ⟨fun f => { f with traced := true }, fun _ => ⟨true, rfl⟩, fun _ _ => rfl, fun _ _ => rfl⟩

variable (v : FrameView) {f g : Frame}

theorem parts_eq (h : v.see f = v.see g) :
    f.kind = g.kind ∧ f.line = g.line ∧ f.reported = g.reported := by
  obtain ⟨s, hs⟩ := v.see_eq f
  obtain ⟨t, ht⟩ := v.see_eq g
  rw [hs, ht, Frame.mk.injEq] at h
  obtain ⟨-, -, hline, hkind, -, hreported⟩ := h
  exact ⟨hkind, hline, hreported⟩

end FrameView

/-- Which machines are alike: their frames as seen, their timers and the states of their
listeners. -/
structure Likeness (σ τ : Type) where
  frames : FrameView
  timers : Timer → Timer → Prop
  monitors : σ → τ → Prop

section

variable {σ τ α β : Type} {L : Likeness σ τ}

structure Machine.Alike (L : Likeness σ τ) (m : Machine σ) (m' : Machine τ) : Prop where
  store : m.store = m'.store
  stack : m.stack.map L.frames.see = m'.stack.map L.frames.see
  output : m.output = m'.output
  handling : m.handling = m'.handling
  pos : m.pos = m'.pos
  jump : m.jump = m'.jump
  returned : m.returned = m'.returned
  timer : L.timers m.timer m'.timer
  monitor : L.monitors m.monitor m'.monitor

inductive Ending.Alike (L : Likeness σ τ) : Ending σ α → Ending τ α → Prop
  | done (a : α) {m : Machine σ} {m' : Machine τ} : m.Alike L m' → Alike L (.done a m) (.done a m')
  | failed (f : Failure) {m : Machine σ} {m' : Machine τ} :
      m.Alike L m' → Alike L (.failed f m) (.failed f m')
  | unfinished {m : Machine σ} {m' : Machine τ} :
      m.Alike L m' → Alike L (.unfinished m) (.unfinished m')

theorem Ending.Alike.cases {r : Ending σ α} {r' : Ending τ α} (h : r.Alike L r') :
    (∃ a m m', r = .done a m ∧ r' = .done a m' ∧ m.Alike L m') ∨
    (∃ f m m', r = .failed f m ∧ r' = .failed f m' ∧ m.Alike L m') ∨
    ∃ m m', r = .unfinished m ∧ r' = .unfinished m' ∧ m.Alike L m' := by
  cases h with
  | done a h => exact .inl ⟨a, _, _, rfl, rfl, h⟩
  | failed f h => exact .inr (.inl ⟨f, _, _, rfl, rfl, h⟩)
  | unfinished h => exact .inr (.inr ⟨_, _, rfl, rfl, h⟩)

namespace Machine.Alike

variable {m : Machine σ} {m' : Machine τ} (h : m.Alike L m')

include h

theorem depth : m.stack.size = m'.stack.size := by
  simpa using congrArg Array.size h.stack

theorem top : L.frames.see (m.stack.back?.getD .top) = L.frames.see (m'.stack.back?.getD .top) := by
  have hback := congrArg Array.back? h.stack
  rw [Array.back?_map, Array.back?_map] at hback
  cases hm : m.stack.back? <;> cases hm' : m'.stack.back? <;> rw [hm, hm'] at hback <;>
    simp_all

theorem push (f : Frame) : Alike L { m with stack := m.stack.push f }
    { m' with stack := m'.stack.push f } :=
  { h with stack := by simp only [Array.map_push, h.stack] }

theorem pop : Alike L { m with stack := m.stack.pop } { m' with stack := m'.stack.pop } :=
  { h with stack := by simp only [Array.map_pop, h.stack] }

theorem withStore (s : Store) : Alike L { m with store := s } { m' with store := s } :=
  { h with store := rfl }

theorem withPos (p : Position) : Alike L { m with pos := p } { m' with pos := p } :=
  { h with pos := rfl }

theorem withJump (j : Jump) : Alike L { m with jump := j } { m' with jump := j } :=
  { h with jump := rfl }

theorem withReturned (v : Value) : Alike L { m with returned := v } { m' with returned := v } :=
  { h with returned := rfl }

/-- A change of the top frame that does not depend on whether it is traced. -/
theorem withTop {u : Frame → Frame}
    (hu : ∀ f g, L.frames.see f = L.frames.see g → L.frames.see (u f) = L.frames.see (u g)) :
    Alike L { m with stack := m.stack.modify (m.stack.size - 1) u }
      { m' with stack := m'.stack.modify (m'.stack.size - 1) u } := by
  have hsize := h.depth
  refine { h with stack := ?_ }
  dsimp only
  apply Array.ext
  · simpa using hsize
  · intro i hi hi'
    have hlt : i < m.stack.size := by simpa using hi
    have hlt' : i < m'.stack.size := by simpa using hi'
    have hget : L.frames.see m.stack[i] = L.frames.see m'.stack[i] := by
      have hopt := congrArg (·[i]?) h.stack
      simpa [hlt, hlt'] using hopt
    simp only [Array.getElem_map, Array.getElem_modify, hsize]
    split
    · exact hu _ _ hget
    · exact hget

theorem forget (name : String) : (m.forget name).Alike L (m'.forget name) := by
  rw [Machine.forget_eq, Machine.forget_eq, ← h.store, ← (L.frames.parts_eq h.top).1]
  split
  · exact h.withStore _
  · exact h

end Machine.Alike

/-- Computations that on machines that are alike end in the same way, again with such machines. -/
def Action.Alike (L : Likeness σ τ) (x : Action σ α) (y : Action τ α) : Prop :=
  ∀ ⦃m : Machine σ⦄ ⦃m' : Machine τ⦄, m.Alike L m' → (x m).Alike L (y m')

namespace Action.Alike

open Footprint.Action

theorem pure (a : α) : Alike L (pure a) (pure a) := fun _ _ h => .done a h

theorem bind {x : Action σ α} {x' : Action τ α} {f : α → Action σ β} {f' : α → Action τ β}
    (hx : Alike L x x') (hf : ∀ a, Alike L (f a) (f' a)) : Alike L (x >>= f) (x' >>= f') := by
  intro m m' h
  rw [bind_apply, bind_apply]
  rcases (hx h).cases with ⟨a, n, n', e, e', hn⟩ | ⟨f, n, n', e, e', hn⟩ | ⟨n, n', e, e', hn⟩ <;>
    rw [e, e']
  · exact hf a hn
  · exact .failed f hn
  · exact .unfinished hn

theorem observe (f : Store → Option (Except Failure α)) : Alike L (observe f) (observe f) := by
  intro m m' h
  unfold Action.observe
  rw [h.store]
  split
  · exact .done _ h
  · exact .failed _ h
  · exact .unfinished h

theorem edit (e : Edit α) : Alike L (edit e) (edit e) := by
  intro m m' h
  rw [edit_apply, edit_apply, h.store]
  exact .done _ (h.withStore _)

theorem editAt (p : Position) (plan : Store → Except Fault (Edit α)) :
    Alike L (editAt p plan) (editAt p plan) := by
  intro m m' h
  unfold Action.editAt
  rw [h.store]
  split
  · exact edit _ h
  · exact .failed _ h

theorem frameKind : Alike L frameKind frameKind := by
  intro m m' h
  unfold Action.frameKind
  rw [(L.frames.parts_eq h.top).1]
  exact .done _ h

theorem getPos : Alike L getPos getPos := by
  intro m m' h
  unfold Action.getPos
  rw [h.pos]
  exact .done _ h

theorem setPos (p : Position) : Alike L (setPos p) (setPos p) :=
  fun _ _ h => .done () (h.withPos p)

theorem write (text : String) : Alike L (write text) (write text) := by
  intro m m' h
  exact .done () { h with output := by simp only [h.output, h.pos] }

theorem modifyFrame {u : Frame → Frame}
    (hu : ∀ f g, L.frames.see f = L.frames.see g → L.frames.see (u f) = L.frames.see (u g)) :
    Alike L (modifyFrame u) (modifyFrame u) :=
  fun _ _ h => .done () (h.withTop hu)

theorem setLine (line : Nat) : Alike L (Action.modifyFrame ({ · with line }))
    (Action.modifyFrame ({ · with line })) :=
  modifyFrame fun f g h => by
    rw [L.frames.see_line f, L.frames.see_line g, h]

theorem setReported (reported : Bool) : Alike L (Action.modifyFrame ({ · with reported }))
    (Action.modifyFrame ({ · with reported })) :=
  modifyFrame fun f g h => by
    rw [L.frames.see_reported f, L.frames.see_reported g, h]

theorem reraise (p : Position) : Alike L (reraise p) (reraise p) := by
  intro m m' h
  unfold Action.reraise
  rw [h.handling]
  split
  · exact .failed _ h
  · exact .failed _ h

theorem result : Alike L result result := by
  intro m m' h
  rw [result_apply, result_apply]
  by_cases hj : m'.jump = .ret
  · rw [if_pos (h.jump.trans hj), if_pos hj, h.returned]
    exact .done _ (h.withReturned .none)
  · rw [if_neg (h.jump ▸ hj), if_neg hj]
    exact .done _ h

theorem setJump (j : Jump) : Alike L (setJump j) (setJump j) :=
  fun _ _ h => .done () (h.withJump j)

theorem giveBack (v : Value) : Alike L (giveBack v) (giveBack v) :=
  fun _ _ h => .done () ((h.withJump .ret).withReturned v)

theorem proceed {x y : Action σ Unit} {x' y' : Action τ Unit} {h : Failure → Action σ Unit}
    {h' : Failure → Action τ Unit} (hx : Alike L x x') (hy : Alike L y y')
    (hh : ∀ f, Alike L (h f) (h' f)) : Alike L (proceed x y h) (proceed x' y' h') := by
  intro m m' hm
  unfold Action.proceed
  rcases (hx hm).cases with ⟨a, n, n', e, e', hn⟩ | ⟨f, n, n', e, e', hn⟩ | ⟨n, n', e, e', hn⟩ <;>
    simp only [e, e']
  · rw [hn.jump]
    split
    · exact hy hn
    · exact .done () hn
  · exact hh f hn
  · exact .unfinished hn

theorem round {x y : Action σ Unit} {x' y' : Action τ Unit} (hx : Alike L x x')
    (hy : Alike L y y') : Alike L (round x y) (round x' y') := by
  intro m m' hm
  unfold Action.round
  rcases (hx hm).cases with ⟨a, n, n', e, e', hn⟩ | ⟨f, n, n', e, e', hn⟩ | ⟨n, n', e, e', hn⟩ <;>
    simp only [e, e']
  · rw [hn.jump]
    cases n'.jump with
    | none => exact hy hn
    | cont => exact hy (hn.withJump .none)
    | brk => exact .done () (hn.withJump .none)
    | ret => exact .done () hn
  · exact .failed f hn
  · exact .unfinished hn

theorem putAside {x : Action σ Unit} {x' : Action τ Unit} (hx : Alike L x x')
    {pending : Machine σ → Ending σ Unit} {pending' : Machine τ → Ending τ Unit}
    (hp : Alike L pending pending') : Alike L (putAside x pending) (putAside x' pending') := by
  intro m m' hm
  rw [putAside_apply, putAside_apply]
  rcases (hx ((hm.withJump .none).withReturned .none)).cases with
    ⟨a, n, n', e, e', hn⟩ | ⟨f, n, n', e, e', hn⟩ | ⟨n, n', e, e', hn⟩ <;> simp only [e, e']
  · rw [hm.jump, hm.returned]
    by_cases hj : n'.jump = .none
    · rw [if_pos (hn.jump.trans hj), if_pos hj]
      exact hp ((hn.withJump m'.jump).withReturned m'.returned)
    · rw [if_neg (hn.jump ▸ hj), if_neg hj]
      exact .done () hn
  · exact .failed f hn
  · exact .unfinished hn

theorem lastly {x y : Action σ Unit} {x' y' : Action τ Unit} (hx : Alike L x x')
    (hy : Alike L y y') : Alike L (lastly x y) (lastly x' y') := by
  intro m m' hm
  unfold Action.lastly
  rcases (hx hm).cases with ⟨a, n, n', e, e', hn⟩ | ⟨f, n, n', e, e', hn⟩ | ⟨n, n', e, e', hn⟩ <;>
    simp only [e, e']
  · exact hy.putAside (fun _ _ h => .done () h) hn
  · exact hy.putAside (fun _ _ h => .failed f h) hn
  · exact .unfinished hn

theorem whileHandling {x : Action σ Unit} {x' : Action τ Unit} (hx : Alike L x x') (f : Failure) :
    Alike L (whileHandling f x) (whileHandling f x') := by
  intro m m' hm
  unfold Action.whileHandling
  have hpush : Machine.Alike L { m with handling := f :: m.handling }
      { m' with handling := f :: m'.handling } := { hm with handling := by rw [hm.handling] }
  have hpop {n : Machine σ} {n' : Machine τ} (hn : n.Alike L n') :
      Machine.Alike L { n with handling := n.handling.tail }
        { n' with handling := n'.handling.tail } := { hn with handling := by rw [hn.handling] }
  rcases (hx hpush).cases with
    ⟨a, n, n', e, e', hn⟩ | ⟨g, n, n', e, e', hn⟩ | ⟨n, n', e, e', hn⟩ <;> simp only [e, e']
  · exact .done () (hpop hn)
  · exact .failed g (hpop hn)
  · exact .unfinished hn

theorem thenForget {x : Action σ Unit} {x' : Action τ Unit} (hx : Alike L x x')
    (name : Option String) : Alike L (thenForget name x) (thenForget name x') := by
  cases name with
  | none => exact hx
  | some name =>
    intro m m' hm
    unfold Action.thenForget
    rcases (hx hm).cases with
      ⟨a, n, n', e, e', hn⟩ | ⟨f, n, n', e, e', hn⟩ | ⟨n, n', e, e', hn⟩ <;> simp only [e, e']
    · exact .done () (hn.forget name)
    · exact .failed f (hn.forget name)
    · exact .unfinished hn

theorem backAt {x : Action σ α} {x' : Action τ α} (hx : Alike L x x') (p : Position) :
    Alike L (backAt p x) (backAt p x') := by
  intro m m' hm
  unfold Action.backAt
  rcases (hx hm).cases with ⟨a, n, n', e, e', hn⟩ | ⟨f, n, n', e, e', hn⟩ | ⟨n, n', e, e', hn⟩ <;>
    simp only [e, e']
  · exact .done a (hn.withPos p)
  · exact .failed f (hn.withPos p)
  · exact .unfinished hn

theorem inHostFrame {x : Action σ Value} {x' : Action τ Value} (hx : Alike L x x') :
    Alike L (inHostFrame x) (inHostFrame x') := by
  intro m m' hm
  unfold Action.inHostFrame
  rcases (hx (hm.push .host)).cases with
    ⟨a, n, n', e, e', hn⟩ | ⟨f, n, n', e, e', hn⟩ | ⟨n, n', e, e', hn⟩ <;> simp only [e, e']
  · exact .done a (hn.pop.withJump .none)
  · exact .failed f (hn.pop.withJump .none)
  · exact .unfinished hn

end Action.Alike

/-- Settings in which telling an event and reading the clock keep machines alike. -/
structure Setting.Alike (L : Likeness σ τ) (env : Setting σ) (env' : Setting τ) : Prop where
  limits : env.limits = env'.limits
  startTimer : Action.Alike L env.startTimer env'.startTimer
  checkDeadline : Action.Alike L env.checkDeadline env'.checkDeadline
  tell (e : Event) : e ≠ .call → Action.Alike L (env.tell e) (env'.tell e)
  announce : Action.Alike L env.announce env'.announce

namespace Setting.Alike

open Footprint.Action

variable {env : Setting σ} {env' : Setting τ} (henv : env.Alike L env')

include henv

theorem markLine (line : Nat) : Action.Alike L (env.markLine line) (env'.markLine line) :=
  henv.checkDeadline.bind fun _ => (Action.Alike.setLine line).bind fun _ =>
    henv.tell .line (by decide)

theorem report (f : Failure) : Action.Alike L (env.report f) (env'.report f) := by
  have told : Action.Alike L
      (do modifyFrame ({ · with reported := true }); env.tell .exception)
      (do modifyFrame ({ · with reported := true }); env'.tell .exception) :=
    (Action.Alike.setReported true).bind fun _ => henv.tell .exception (by decide)
  intro m m' h
  simp only [Setting.report, bind_apply, frame, (L.frames.parts_eq h.top).2.2]
  split
  · exact told h
  · exact .done () h

theorem markHeader : Action.Alike L env.markHeader env'.markHeader := by
  intro m m' h
  obtain ⟨hkind, hline, -⟩ := L.frames.parts_eq h.top
  simp only [Setting.markHeader, bind_apply, frame, hkind, hline]
  cases (m'.stack.back?.getD .top).kind with
  | classBody scope => exact henv.markLine _ h
  | top | function f locals => exact .done () h

theorem finish {r : Ending σ Value} {r' : Ending τ Value} (hr : r.Alike L r') :
    (env.finish r).Alike L (env'.finish r') := by
  rcases hr.cases with ⟨v, n, n', rfl, rfl, hn⟩ | ⟨f, n, n', rfl, rfl, hn⟩ | ⟨n, n', rfl, rfl, hn⟩
  · unfold Setting.finish
    rcases (henv.tell .ret (by decide) (hn.withJump .none)).cases with
      ⟨a, k, k', e, e', hk⟩ | ⟨f, k, k', e, e', hk⟩ | ⟨k, k', e, e', hk⟩ <;> simp only [e, e']
    · exact .done v hk.pop
    · exact .failed f hk.pop
    · exact .unfinished hk
  · unfold Setting.finish
    rcases (henv.tell .ret (by decide) (hn.withJump .none)).cases with
      ⟨a, k, k', e, e', hk⟩ | ⟨g, k, k', e, e', hk⟩ | ⟨k, k', e, e', hk⟩ <;> simp only [e, e']
    · exact .failed f hk.pop
    · exact .failed f hk.pop
    · exact .unfinished hk
  · exact .unfinished hn

theorem inFrame (frame : Frame) {x : Action σ Unit} {x' : Action τ Unit}
    (hx : Action.Alike L x x') : Action.Alike L (env.inFrame frame x) (env'.inFrame frame x') := by
  intro m m' h
  unfold Setting.inFrame
  rw [henv.limits, h.depth, h.pos]
  split
  · exact .failed _ h
  · apply henv.finish
    have body : Action.Alike L (do push frame; env.announce; env.markHeader; x; result)
        (do push frame; env'.announce; env'.markHeader; x'; result) :=
      Action.Alike.bind (fun _ _ h => .done () (h.push frame)) fun _ =>
        henv.announce.bind fun _ => henv.markHeader.bind fun _ => hx.bind fun _ =>
          Action.Alike.result
    exact body h

end Setting.Alike

/-- The relation between computations that keep machines alike. -/
def Likeness.relation (L : Likeness σ τ) : RunRelation σ τ where
  known _ := True
  expr _ _ := Action.Alike L
  stmt _ := Action.Alike L
  final _ := Action.Alike L

namespace Setting.Alike

open Footprint.Action

variable {env : Setting σ} {env' : Setting τ} (henv : env.Alike L env')

include henv

theorem closed : L.relation.Closed env env' where
  pure _ _ := .pure
  bind := .bind
  observe _ _ := .observe
  editAt _ _ _ _ _ := .editAt _ _
  newFunction _ _ _ := .edit _
  frameKind _ := .frameKind
  getPos _ := .getPos
  setPos _ := .setPos
  write _ := .write
  reraise _ := .reraise
  checkDeadline _ := henv.checkDeadline
  markLine _ := henv.markLine _
  lookup _ _ _ h := (Action.Alike.observe _).bind fun found => h found fun _ _ => trivial
  inFrame _ _ h := henv.inFrame _ h
  backAt p h := .backAt h p
  known_classBody _ _ := trivial
  ofExpr h := h
  andThen := .bind
  setJump _ := .setJump
  giveBack _ := .giveBack
  proceed hx hy hh _ := .proceed hx hy hh
  round := .round
  lastly := .lastly

theorem encloses : L.relation.Encloses env env' where
  reporting {c} _ _ hx := henv.closed.reporting (c := c) henv.report hx
  clause f name _ _ hx := by
    have bound : Action.Alike L (bindCaught f name) (bindCaught f name) :=
      (henv.closed.steps (.top ⟨[]⟩)).bindCaught f name
    exact (Action.Alike.setReported false).bind fun _ => bound.bind fun _ =>
      (Action.Alike.whileHandling hx f).thenForget name

theorem calls (n : Nat) : L.relation.Agree (env.calls n) (env'.calls n) :=
  henv.closed.calls henv.encloses id n

section

variable {d : Calls σ} {d' : Calls τ} (agree : L.relation.Agree d d')

include agree

theorem runWith (script : Script) :
    Action.Alike L (env.runWith d script) (env'.runWith d' script) := by
  have body := agree.run (c := .top script) trivial _ (Code.allows_body _)
  exact henv.startTimer.bind fun _ => (Action.Alike.setJump .none).bind fun _ =>
    (henv.inFrame .top body).bind fun _ => .pure ()

theorem callWith (name : String) (args : List Value) :
    Action.Alike L (env.callWith d name args) (env'.callWith d' name args) := by
  refine (Action.Alike.observe _).bind fun callee => ?_
  cases callee with
  | none =>
    dsimp only
    exact .observe _
  | some v =>
    apply henv.startTimer.bind
    intro _
    refine Action.Alike.inHostFrame (Action.Alike.getPos.bind fun p => ?_)
    exact agree.value (c := .top ⟨[]⟩) trivial (.call v args p)

end

theorem runScript (n : Nat) (script : Script) :
    Action.Alike L (env.runScript n script) (env'.runScript n script) :=
  henv.runWith (henv.calls n) script

theorem callGlobal (n : Nat) (name : String) (args : List Value) :
    Action.Alike L (env.callGlobal n name args) (env'.callGlobal n name args) :=
  henv.callWith (henv.calls n) name args

end Setting.Alike

end

end Footprint
