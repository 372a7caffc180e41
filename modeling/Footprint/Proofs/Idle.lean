import Footprint.Proofs.Jumps
import Footprint.Proofs.Protocol
import Footprint.Session.Interpreter

set_option autoImplicit false

/-!
Between the steps of a host an interpreter is idle: however a run has ended, no frame is left, no
exception is being handled and no jump is under way.
-/

namespace Footprint

section

variable {σ ω α : Type}

/-- Nothing runs on the machine. -/
structure Machine.Idle (m : Machine σ) : Prop where
  stack : m.stack = #[]
  handling : m.handling = []
  jump : m.jump = .none
  returned : m.returned = .none

theorem Machine.idle_initial (s : σ) : (Machine.initial s).Idle := ⟨rfl, rfl, rfl, rfl⟩

theorem Machine.Idle.settled {m : Machine σ} (h : m.Idle) : m.Settled := ⟨h.jump, h.returned⟩

theorem Ending.Ends.imp {r : Ending σ α} {P Q : Machine σ → Prop} (h : r.Ends P)
    (hQ : ∀ m, P m → Q m) : r.Ends Q := by
  cases r with
  | done a m | failed f m => exact hQ m h
  | unfinished m => trivial

theorem Ending.Ends.and {r : Ending σ α} {P Q R : Machine σ → Prop} (h : r.Ends P)
    (h' : r.Ends Q) (hR : ∀ m, P m → Q m → R m) : r.Ends R := by
  cases r with
  | done a m | failed f m => exact hR m h h'
  | unfinished m => trivial

theorem Ending.ends_of_machine {r : Ending σ α} {P : Machine σ → Prop} (h : P r.machine) :
    r.Ends P := by
  cases r with
  | done a m | failed f m => exact h
  | unfinished m => trivial

/-- The protocol that allows everything. -/
def Protocol.any (σ : Type) : Protocol σ :=
  .preserving (fun _ => True) (fun _ _ => True) fun _ => True

theorem Protocol.any_admits (env : Setting σ) : (any σ).Admits env :=
  preserving_admits (fun _ _ => trivial) (fun _ _ => trivial) fun _ _ _ _ _ _ _ _ => trivial

theorem Protocol.any_calls (env : Setting σ) (n : Nat) :
    (any σ).relation.Agree (env.calls n) (env.calls n) :=
  calls (any_admits env) (preserving_exceptions fun _ _ _ _ _ _ _ _ => trivial)
    (fun _ _ => trivial) n

namespace Setting

variable (env : Setting σ) {m : Machine σ}

theorem idle_runScript (n : Nat) (script : Script) (h : m.Idle) :
    (env.runScript n script m).Ends Machine.Idle := by
  have frames := Protocol.runWith_concludes (m := m) (Protocol.any_admits env)
    (Protocol.any_calls env n) script trivial trivial fun _ _ _ => trivial
  have settled := Action.settled_runScript env n script h.returned
  apply frames.ends.and settled
  intro m' returned settled
  exact ⟨returned.stack.trans h.stack, returned.handling.trans h.handling, settled.1, settled.2⟩

theorem idle_callGlobal (n : Nat) (name : String) (args : List Value) (h : m.Idle) :
    (env.callGlobal n name args m).Ends Machine.Idle := by
  have frames := Protocol.callGlobal_concludes (m := m) (Protocol.any_admits env)
    (Protocol.any_calls env n) ⟨[]⟩ trivial trivial (fun _ _ _ => trivial) name args
  have settled := Action.settles_callGlobal env n name args h.settled
  apply frames.ends.and settled
  intro m' answered settled
  exact ⟨answered.stack.trans h.stack, answered.handling.trans h.handling, settled.1, settled.2⟩

end Setting

namespace Interpreter

/-- What is said of the machine at the end of a computation of the host holds of the interpreter
that it gives. -/
theorem ends_of_act {i j : Interpreter ω} {μ ν : Monitors ω}
    {x : Setting (Monitors ω) → Action (Monitors ω) α} {r : Except Failure α}
    (h : i.act μ x = some (r, j, ν)) {Q : Machine (Monitors ω) → Prop}
    (hx : (x i.setting (i.machine.withMonitor μ)).Ends Q) :
    ∃ m, Q m ∧ j = { i with machine := m.withMonitor () } ∧ ν = m.monitor := by
  unfold act at h
  cases hr : x i.setting (i.machine.withMonitor μ) with
  | done a m | failed f m =>
    rw [hr] at h hx
    cases h
    exact ⟨m, hx, rfl, rfl⟩
  | unfinished m =>
    rw [hr] at h
    cases h

/-- The interpreters that a host gets from a new one by binding names, by putting listeners in and
taking them out, and by runs and calls that end. -/
inductive Reached (p : Program) (limits : Limits) : Interpreter ω → Prop
  | new (clock : Clock) : Reached p limits (new p limits clock)
  | bind {i : Interpreter ω} (name : String) (make : Edit Value) :
      Reached p limits i → Reached p limits (i.bind name make)
  | listen {i : Interpreter ω} (listener : Option (Listener (Monitors ω))) :
      Reached p limits i → Reached p limits { i with listener }
  | run {i j : Interpreter ω} {n : Nat} {μ ν : Monitors ω} {r : Except Failure Unit} :
      Reached p limits i → i.run n μ = some (r, j, ν) → Reached p limits j
  | call {i j : Interpreter ω} {n : Nat} {μ ν : Monitors ω} {name : String}
      {args : Edit (List Value)} {r : Except Failure Value} :
      Reached p limits i → i.call n μ name args = some (r, j, ν) → Reached p limits j

theorem idle_of_act {i j : Interpreter ω} {μ ν : Monitors ω}
    {x : Setting (Monitors ω) → Action (Monitors ω) α} {r : Except Failure α}
    (hx : ∀ env, (x env (i.machine.withMonitor μ)).Ends Machine.Idle)
    (h : i.act μ x = some (r, j, ν)) : j.machine.Idle := by
  obtain ⟨m, idle, rfl, -⟩ := ends_of_act h (hx _)
  exact ⟨idle.stack, idle.handling, idle.jump, idle.returned⟩

theorem idle_of_run {i j : Interpreter ω} {n : Nat} {μ ν : Monitors ω} {r : Except Failure Unit}
    (hi : i.machine.Idle) (h : i.run n μ = some (r, j, ν)) : j.machine.Idle := by
  refine idle_of_act (fun env => ?_) h
  exact env.idle_runScript n _ ⟨hi.stack, hi.handling, hi.jump, hi.returned⟩

theorem idle_of_call {i j : Interpreter ω} {n : Nat} {μ ν : Monitors ω} {name : String}
    {args : Edit (List Value)} {r : Except Failure Value} (hi : i.machine.Idle)
    (h : i.call n μ name args = some (r, j, ν)) : j.machine.Idle := by
  refine idle_of_act (fun env => ?_) h
  rw [Action.bind_apply, Action.edit_apply]
  exact env.idle_callGlobal n name _ ⟨hi.stack, hi.handling, hi.jump, hi.returned⟩

theorem Reached.idle {p : Program} {limits : Limits} {i : Interpreter ω}
    (h : Reached p limits i) : i.machine.Idle := by
  induction h with
  | new clock => exact Machine.idle_initial ()
  | bind name make _ ih => exact ⟨ih.stack, ih.handling, ih.jump, ih.returned⟩
  | listen listener _ ih => exact ih
  | run _ ended ih => exact idle_of_run ih ended
  | call _ ended ih => exact idle_of_call ih ended

end Interpreter

end

end Footprint
