import Footprint.Proofs.RegimeRuns
import Footprint.Proofs.Scenes

set_option autoImplicit false

/-!
Regimes along what a host does. What the host hands in keeps the conditions of a regime, so does a
call of a function with it, and they hold of the interpreter when a run or a call has ended.
-/

namespace Footprint.Regime

section

variable {σ : Type} {R : Regime σ} {env : Setting σ} (h : R.Kept env) {w : R.World}

include h

theorem Kept.makeGift {s : Store} {μ : σ} {gift : Gift} (holds : R.holds w s μ)
    (good : ∀ v, gift = .back v → R.value w v) : R.Grants w s μ gift.make R.value := by
  cases gift with
  | new d => exact h.make d holds
  | back v => exact h.give holds (good v rfl)

theorem Kept.makeGifts {s : Store} {μ : σ} {gifts : List Gift} (holds : R.holds w s μ)
    (good : ∀ v, .back v ∈ gifts → R.value w v) :
    R.Grants w s μ (Gift.makeAll gifts) R.values := by
  induction gifts generalizing w s with
  | nil => exact ⟨w, h.refl w, holds, fun v hv => absurd hv List.not_mem_nil⟩
  | cons gift gifts ih =>
    obtain ⟨u, later, made, first⟩ := h.makeGift holds fun v same =>
      good v (same ▸ List.mem_cons_self)
    obtain ⟨u', later', held, others⟩ := ih made fun v hv =>
      h.value_mono later (good v (List.mem_cons_of_mem _ hv))
    exact ⟨u', h.trans later later', held,
      List.forall_mem_cons.2 ⟨h.value_mono later' first, others⟩⟩

/-- A call of a global function by a host, with gifts that are made for it. -/
theorem Kept.callGifts_concludes {d : Calls σ} (agree : R.Agree d) (script : Script)
    (known : R.known (.top script)) {m : Machine σ} (stable : R.Stable w m) (name : String)
    {gifts : List Gift} (good : ∀ v, .back v ∈ gifts → R.value w v) :
    R.Concludes w R.value m
      ((do let vs ← Action.edit (Gift.makeAll gifts); env.callWith d name vs) m) := by
  obtain ⟨u, later, holds, values⟩ := h.makeGifts stable.holds good
  rw [Action.bind_apply, Action.edit_apply]
  dsimp only
  have made : R.Stable u { m with store := (Gift.makeAll gifts m.store).2 } :=
    ⟨holds, h.value_mono later stable.returned, fun f hf =>
      h.stands_mono later (stable.stands f hf)⟩
  exact (h.callWith_concludes agree script known made name values).later h later rfl

end

section

variable {ω ε α : Type} {R : Regime (Monitors (ω × List ε))} {w : R.World} {P : R.World → α → Prop}
  {m : Machine (Monitors (ω × List ε))} {e : Ending (Monitors (ω × List ε)) α}

/-- What has come of a computation with notes when its counterpart without them has ended. -/
theorem Concludes.of_act (concludes : R.Concludes w P m e) {i j : Interpreter ω} {μ ν : Monitors ω}
    {x : Setting (Monitors ω) → Action (Monitors ω) α} {r : Except Failure α}
    (ended : i.act μ x = some (r, j, ν))
    (plain : e.plain = x i.setting (i.machine.withMonitor μ)) :
    ∃ w', R.le w w' ∧ R.holds w' j.machine.store e.machine.monitor ∧ (∀ a, r = .ok a → P w' a) ∧
      j.program = i.program := by
  unfold Interpreter.act at ended
  rw [← plain] at ended
  cases e with
  | done a m =>
    obtain ⟨w', later, closed, ha⟩ := concludes
    cases ended
    exact ⟨w', later, closed.holds, fun b same => by cases same; exact ha, rfl⟩
  | failed f m =>
    obtain ⟨w', later, closed⟩ := concludes
    cases ended
    exact ⟨w', later, closed.holds, fun b same => (nomatch same), rfl⟩
  | unfinished m => cases ended

end

end Footprint.Regime
