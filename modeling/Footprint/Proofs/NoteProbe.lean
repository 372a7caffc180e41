import Footprint.Proofs.Probe
import Footprint.Proofs.Scenes

set_option autoImplicit false

/-!
Probes that do nothing but take notes. The runs with such a probe are the runs themselves.
-/

namespace Footprint

open Footprint.Action Footprint.Setting

section

variable {ω ε : Type}

namespace Probe

/-- The probe does nothing but take notes. -/
structure TakesNotes (p : Probe (Monitors (ω × List ε))) : Prop where
  naming (name : String) : Action.Alike (.noted ω ε) (pure ()) (p.naming name)
  entering : Action.Alike (.noted ω ε) (pure ()) p.entering
  rejecting (f : Fault) : Action.Alike (.noted ω ε) (pure ()) (p.rejecting f)

theorem alike_note (note : Machine (Monitors (ω × List ε)) → ε) :
    Action.Alike (.noted ω ε) (pure ()) fun m =>
      .done () { m with monitor := m.monitor.addNote (note m) } :=
  fun _ _ hm => .done () { hm with monitor := hm.monitor }

variable {p : Probe (Monitors (ω × List ε))} {env : Setting (Monitors ω)}
  {env' : Setting (Monitors (ω × List ε))}

theorem TakesNotes.attends (notes : p.TakesNotes) (alike : env.Alike (.noted ω ε) env') :
    (Likeness.noted ω ε).relation.Attends env env' .idle p where
  naming _ name := notes.naming name
  rejecting _ f := notes.rejecting f
  inFrame {_ _ frame _ _} _ _ hx := notes.entering.bind fun _ => alike.inFrame frame hx
  clause f name x y hx := by
    have stored (n : String) (v : Value) :
        Action.Alike (.noted ω ε) (Probe.idle.store n v) (p.store n v) :=
      (notes.naming n).bind fun _ => (alike.closed.steps (.top ⟨[]⟩)).store n v
    have bound : Action.Alike (.noted ω ε) (Probe.idle.bindCaught f name)
        (p.bindCaught f name) := by
      unfold Probe.bindCaught
      split
      · exact (Action.Alike.edit _).bind fun v => stored _ v
      · exact .pure ()
    have after (n : String) {x : Action (Monitors ω) Unit}
        {y : Action (Monitors (ω × List ε)) Unit} (hx : Action.Alike (.noted ω ε) x y) :
        Action.Alike (.noted ω ε) (Probe.idle.afterwards n x) (p.afterwards n y) := by
      intro m m' hm
      unfold Probe.afterwards
      rcases (hx hm).cases with ⟨a, k, k', e, e', hk⟩ | ⟨g, k, k', e, e', hk⟩ | ⟨k, k', e, e', hk⟩ <;>
        simp only [e, e']
      · exact notes.naming n hk
      · exact (notes.naming n).bind (fun _ => .observe _) hk
      · exact .unfinished hk
    refine (Action.Alike.setReported false).bind fun _ => bound.bind fun _ => ?_
    have handled := Action.Alike.whileHandling hx f
    cases name with
    | none => exact handled
    | some n => exact (after n handled).thenForget (some n)

end Probe

/-! ### Noted runs are the runs themselves -/

namespace Interpreter

variable (i : Interpreter ω) (p : Probe (Monitors (ω × List ε))) (n : Nat) (μ : Monitors ω)

/-- The run of the program, with the notes of the probe. -/
def probedRun : Ending (Monitors (ω × List ε)) Unit :=
  let env := (i.aside ε).setting
  p.runWith env (p.calls env n) i.program.script (i.unnoted μ)

/-- The call of a global function, with the notes of the probe. -/
def probedCall (name : String) (args : Edit (List Value)) :
    Ending (Monitors (ω × List ε)) Value :=
  let env := (i.aside ε).setting
  (do
    let vs ← edit args
    env.callWith (p.calls env n) name vs) (i.unnoted μ)

section

variable {p} (notes : p.TakesNotes)

include notes

theorem probedCalls_alike :
    (Likeness.noted ω ε).relation.Agree (i.setting.calls n) (p.calls (i.aside ε).setting n) := by
  have alike : i.setting.Alike (.noted ω ε) (i.aside ε).setting := alike_aside _ i
  have noted := alike.closed.callsProbed (notes.attends alike) alike.encloses id n
  rwa [Probe.calls_idle] at noted

theorem runProbed_alike (script : Script) :
    Action.Alike (.noted ω ε) (i.setting.runScript n script)
      (p.runWith (i.aside ε).setting (p.calls (i.aside ε).setting n) script) := by
  have alike : i.setting.Alike (.noted ω ε) (i.aside ε).setting := alike_aside _ i
  have body := (i.probedCalls_alike n notes).run (c := .top script) trivial _
    (Code.allows_body _)
  have whole := (notes.attends alike).inFrame (c := .top ⟨[]⟩) trivial (.top script) body
  exact alike.startTimer.bind fun _ => (Action.Alike.setJump .none).bind fun _ =>
    whole.bind fun _ => .pure ()

theorem callProbed_alike (name : String) (args : Edit (List Value)) :
    Action.Alike (.noted ω ε) (do let vs ← edit args; i.setting.callGlobal n name vs) (do
      let vs ← edit args
      (i.aside ε).setting.callWith (p.calls (i.aside ε).setting n) name vs) := by
  have alike : i.setting.Alike (.noted ω ε) (i.aside ε).setting := alike_aside _ i
  exact (Action.Alike.edit args).bind fun vs =>
    alike.callWith (i.probedCalls_alike n notes) name vs

theorem probedRun_plain :
    (i.probedRun p n μ).plain = i.setting.runScript n i.program.script (i.machine.withMonitor μ) :=
  (i.runProbed_alike n notes _ (unnoted_alike i μ)).plain_eq

theorem probedCall_plain (name : String) (args : Edit (List Value)) :
    (i.probedCall p n μ name args).plain =
      (do let vs ← edit args; i.setting.callGlobal n name vs) (i.machine.withMonitor μ) :=
  (i.callProbed_alike n notes name args (unnoted_alike i μ)).plain_eq

end

end Interpreter

end

end Footprint
