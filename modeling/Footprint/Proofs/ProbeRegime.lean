import Footprint.Proofs.Probe
import Footprint.Proofs.RegimeRuns

set_option autoImplicit false

/-!
A regime that is kept by the steps of running is kept by runs with a probe, if it is kept when the
probe attends to a name that the running code object binds, and to a target of the code object that is
rejected.
-/

namespace Footprint

/-- Something is to be done in the code object to an expression that is no target. -/
inductive Code.Rejects (c : Code) : Prop
  | target {e : Expr} : c.Targets e → e.isTarget = false → Rejects c
  | augment {target value : Expr} {op : BinaryOp} {p : Position} :
      c.Owns (.augment target op value p) → target.isSingleTarget = false → Rejects c

namespace Regime

open Footprint.Action Footprint.Setting

section

variable {σ : Type} {R : Regime σ} {env : Setting σ} {c : Code} {w w' : R.World}

/-- The probe attends to names and to targets only, and keeps to the regime. -/
structure Attends (R : Regime σ) (p : Probe σ) : Prop where
  entering : p.entering = pure ()
  naming {c : Code} {w : R.World} {name : String} : R.known c → c.Binds name →
    R.Runs c w R.any (p.naming name)
  rejecting {c : Code} {w : R.World} (f : Fault) : R.known c → c.Rejects →
    R.Runs c w R.any (p.rejecting f)

variable {p : Probe σ} (h : R.Kept env) (attends : R.Attends p)

omit h in
theorem Attends.inFrame_eq (attends : R.Attends p) (env : Setting σ) :
    p.inFrame env = env.inFrame := by
  funext frame x
  unfold Probe.inFrame
  rw [attends.entering]
  rfl

omit h in
theorem Attends.runWith_eq (attends : R.Attends p) (env : Setting σ) (d : Calls σ)
    (script : Script) : p.runWith env d script = env.runWith d script := by
  unfold Probe.runWith
  rw [attends.inFrame_eq]
  rfl

include h attends

section

variable (known : R.known c)

include known

theorem Kept.storeProbed {name : String} {v : Value} (binds : c.Binds name) (hv : R.value w v) :
    R.Runs c w R.any (p.store name v) :=
  (attends.naming known binds).andThen h h.lasts_frame fun _ later _ =>
    h.store known binds (h.value_mono later hv)

theorem Kept.unbindProbed {name : String} (binds : c.Binds name) :
    R.Runs c w R.any (p.unbind name) :=
  (attends.naming known binds).andThen h h.lasts_frame fun _ _ _ => h.unbind known binds

theorem Kept.rejectProbed (rejects : c.Rejects) (f : Fault) (q : Position) :
    R.Runs c w R.any (p.reject f q) :=
  (attends.rejecting f known rejects).andThen h h.lasts_frame fun _ _ _ => .raiseAt h f q

theorem Kept.bindCaughtProbed (f : Failure) {name : Option String}
    (binds : ∀ n ∈ name, c.Binds n) : R.Runs c w R.any (p.bindCaught f name) := by
  unfold Probe.bindCaught
  split
  · next n kind message q =>
    have made : R.Runs c w R.value (edit (Store.newException kind message)) :=
      .edit h fun _ _ _ _ holds => h.newException kind message holds
    exact made.bind h h.lasts_frame fun u _ v hv => h.storeProbed attends known (binds n rfl) hv
  · exact .pure h fun _ _ => trivial

theorem Kept.afterwards {name : String} (binds : c.Binds name) {x : Action σ Unit}
    (hx : R.Runs c w R.any x) : R.Runs c w R.any (p.afterwards name x) := by
  intro w' later m ready
  have comes := hx later ready
  have named {u : R.World} : R.Runs c u R.any (p.naming name) := attends.naming known binds
  unfold Probe.afterwards
  cases hr : x m with
  | done a n =>
    rw [hr] at comes
    obtain ⟨u, hu, after, -⟩ := comes
    have rest := named (h.refl u) (ready.after h h.lasts_frame hu after)
    exact rest.after h hu after
  | failed f n =>
    rw [hr] at comes
    obtain ⟨u, hu, after⟩ := comes
    have failing : R.Runs c u R.any (do p.naming name; fail f : Action σ Unit) :=
      named.andThen h h.lasts_frame fun _ _ _ => .fail h f
    have rest := failing (h.refl u) (ready.after h h.lasts_frame hu after)
    exact rest.after h hu after
  | unfinished n =>
    rw [hr] at comes
    exact comes

theorem Kept.clauseProbed (f : Failure) {name : Option String} {x : Action σ Unit}
    (binds : ∀ n ∈ name, c.Binds n) (hx : R.Runs c w R.any x) :
    R.Runs c w R.any (p.clause f name x) := by
  have lasts := h.lasts_frame
  refine (Yields.setReported h false).andThen h lasts fun u later _ => ?_
  refine (h.bindCaughtProbed attends known f binds).andThen h lasts fun u' later' _ => ?_
  have handled : R.Runs c u' R.any (whileHandling f x) :=
    (hx.later h (h.trans later later')).whileHandling h lasts f
  cases name with
  | none => exact handled
  | some n => exact h.thenForget known binds (h.afterwards attends known (binds n rfl) handled)

end

variable {d : Calls σ} (agree : R.Agree d) (known : R.known c)

include agree known

theorem Kept.evaluationProbed {t : Evaluation} (asks : R.Asks w t) :
    R.Runs c w R.value (p.evaluation env d t) := by
  have same : p.evaluation env d t = env.evaluation d t := by
    unfold Probe.evaluation
    split
    · unfold Probe.callFunction
      rw [attends.inFrame_eq]
      rfl
    · rfl
  rw [same]
  exact h.evaluation agree known asks

theorem Kept.placementProbed {t : Placement} (places : R.Places w c t) :
    R.Runs c w R.any (p.placement d t) := by
  unfold Probe.placement
  split
  · exact h.storeProbed attends known (places.1.binds _ List.mem_cons_self) places.2
  · next target v _ =>
    split
    · exact h.placement agree known (t := .assign target v) places
    · next other =>
      exact h.rejectProbed attends known (.target places.1 (eq_false_of_ne_true other)) _ _
  · exact h.unbindProbed attends known (Code.Targets.binds places _ List.mem_cons_self)
  · next target _ =>
    split
    · exact h.placement agree known (t := .delete target) places
    · next other =>
      exact h.rejectProbed attends known (.target places (eq_false_of_ne_true other)) _ _

theorem Kept.performProbed {s : Stmt} (owned : c.Owns s) :
    R.Runs c w R.any (p.perform env d s) := by
  have lasts := h.lasts_frame
  unfold Probe.perform
  split
  · exact (h.makeFunction agree known owned).bind h lasts fun _ _ v hv =>
      h.storeProbed attends known ⟨_, owned, List.mem_cons_self⟩ hv
  · rw [attends.inFrame_eq]
    exact (h.makeClass agree known owned).bind h lasts fun _ _ v hv =>
      h.storeProbed attends known ⟨_, owned, List.mem_cons_self⟩ hv
  · exact (h.augmentedName agree known _ _ _ _).bind h lasts fun _ _ v hv =>
      h.storeProbed attends known ⟨_, owned, List.mem_cons_self⟩ hv
  · split
    · exact h.perform agree known owned
    · next other =>
      exact h.rejectProbed attends known (.augment owned (eq_false_of_ne_true other)) _ _
  · exact h.perform agree known owned

theorem Kept.executionProbed {t : Execution} (allowed : c.Allows t) (goes : R.Goes w t) :
    R.Runs c w R.any (p.execution env d t) := by
  have lasts := h.lasts_frame
  unfold Probe.execution
  split
  · apply Yields.reporting h lasts
    refine (Yields.setPos h _).andThen h lasts fun _ _ _ => ?_
    refine (Yields.markLines h lasts _).andThen h lasts fun _ _ _ => ?_
    exact h.performProbed attends agree known allowed
  · next f hd =>
    have body : R.Runs c w R.any (d.block hd.body) :=
      h.executes agree known (t := .block hd.body) (Code.Owns.of_clause allowed) trivial
    exact h.clauseProbed attends known f (fun n hn => Code.binds_of_clause allowed hn) body
  · exact h.execution agree known allowed goes

omit agree known in
/-- All answers with the probe keep to the regime, if it says no less of a frame that begins than of
one that has been shown. -/
theorem Kept.callsProbed (ready : ∀ {w c k}, R.fresh w c k → R.frame w c k) (n : Nat) :
    R.Agree (p.calls env n) := by
  induction n with
  | zero => exact ⟨fun _ _ => .unfinished h, fun _ _ => .unfinished h, fun _ _ _ => .unfinished h⟩
  | succ n ih =>
    constructor
    · intro c w t known asks
      exact (h.evaluationProbed attends ih known asks).weaken ready
    · intro c w t known places
      exact (h.placementProbed attends ih known places).weaken ready
    · intro c w t known allowed goes
      exact (h.executionProbed attends ih known allowed goes).weaken ready

end

end Regime

end Footprint
