import Footprint.Proofs.Covered
import Footprint.Proofs.NoteProbe
import Footprint.Proofs.ProbeRegime
import Footprint.Proofs.ScopeChains

set_option autoImplicit false

/-!
Notes that are good. What a probe notes of the code objects of a parsed script, it notes whatever a
host does with the program; so if all those notes are good, all notes are.
-/

namespace Footprint

open Footprint.Action Footprint.Setting

section

variable {ω ε : Type} {good : ε → Prop} {s : Script}

/-- All functions are those of a script, and all that has been noted is good. -/
def noteRegime (ω : Type) (s : Script) (good : ε → Prop) : Regime (Monitors (ω × List ε)) where
  World := Unit
  le _ _ := True
  known := s.Contains
  holds _ store μ := s.Wrote store ∧ ∀ note ∈ μ.notes, good note
  value _ _ := True
  closure _ f := s.Contains (.function f.function)
  scope _ _ _ := True
  fresh _ c k := ∀ f r, k = .function f r → c = .function f
  frame _ c k := ∀ f r, k = .function f r → c = .function f

theorem kept_noteRegime (good : ε → Prop) (s : Script) (i : Interpreter ω) :
    (noteRegime ω s good).Kept (i.aside ε).setting where
  refl _ := trivial
  trans _ _ := trivial
  known_of_defines contained defines := .inner contained defines
  value_mono _ _ := trivial
  closure_mono _ contained := contained
  scope_mono _ _ := trivial
  fresh_mono _ fresh := fresh
  frame_mono _ frame := frame
  fresh_of_frame frame := frame
  frame_top _ _ _ _ same := nomatch same
  hear := by
    intro w store μ f d e ⟨functions, all⟩
    refine ⟨functions, ?_⟩
    rw [i.notes_hear_aside f d e μ]
    exact all
  plain _ _ := trivial
  tuple _ _ _ := trivial
  method := Iff.rfl
  items _ _ _ _ := trivial
  binding _ _ := trivial
  newList holds _ := ⟨(), trivial, holds, trivial⟩
  setItems holds _ _ := ⟨(), trivial, holds⟩
  newTuple holds _ := ⟨(), trivial, holds, trivial⟩
  newException _ _ holds := ⟨(), trivial, holds, trivial⟩
  setAttribute holds _ _ := ⟨(), trivial, holds⟩
  eraseAttribute holds _ := ⟨(), trivial, holds⟩
  assign _ _ _ holds _ _ := ⟨(), trivial, holds⟩
  unassign _ _ _ holds _ := ⟨(), trivial, holds⟩
  found holds found := holds.1 _ _ found
  known_closure contained := contained
  definitionScope _ _ _ := trivial
  defined contained owned _ _ := .inner contained (.function owned)
  newFunction := by
    rintro w store μ f ⟨wrote, all⟩ contained
    refine ⟨(), trivial, ⟨fun q g hg => ?_, all⟩, trivial⟩
    rcases Store.function?_of_newFunction hg with rfl | hg
    · exact contained
    · exact wrote q g hg
  callScope := by
    rintro w store μ f args ⟨wrote, all⟩ contained -
    refine ⟨(), trivial, ⟨wrote.of_keeps (Store.keeps_callScope _ _), all⟩, ?_⟩
    rintro g r same
    cases same
    rfl
  classScope _ _ _ holds := ⟨(), trivial, holds, (fun _ _ same => nomatch same), fun _ => trivial⟩

/-- The notes of a computation that concludes are good. -/
theorem good_of_concludes {α : Type} {P : Unit → α → Prop}
    {m : Machine (Monitors (ω × List ε))} {r : Ending (Monitors (ω × List ε)) α}
    (h : (noteRegime ω s good).Concludes () P m r) :
    ∀ note ∈ r.machine.monitor.notes, good note := by
  obtain ⟨w, -, -, all⟩ := h.holds
  exact all

namespace Interpreter

variable {source : String} {p : Program} {limits : Limits} {i : Interpreter ω}
  {given : List Value} {film : List Scene} {probe : Probe (Monitors (ω × List ε))}

/-- What comes next is what it is without the probe, and all notes are good. -/
structure NotesGood (i : Interpreter ω) (probe : Probe (Monitors (ω × List ε)))
    (good : ε → Prop) : Prop where
  run (n : Nat) (μ : Monitors ω) :
    (i.probedRun probe n μ).plain =
      i.setting.runScript n i.program.script (i.machine.withMonitor μ) ∧
    ∀ note ∈ (i.probedRun probe n μ).machine.monitor.notes, good note
  call (n : Nat) (μ : Monitors ω) (name : String) {args : Edit (List Value)} :
    args.KeepsFunctions → (i.probedCall probe n μ name args).plain =
      (do let vs ← edit args; i.setting.callGlobal n name vs) (i.machine.withMonitor μ) ∧
    ∀ note ∈ (i.probedCall probe n μ name args).machine.monitor.notes, good note

theorem notesGood (parsed : Program.ofSource source = .ok p)
    (filmed : Filmed p limits i given film) (notes : probe.TakesNotes)
    (attends : (noteRegime ω p.script good).Attends probe) : i.NotesGood probe good := by
  obtain ⟨program, w, rests⟩ := Lineage.exists_rests (Lineage.isParsed_of_source parsed) filmed
  have wrote : p.script.Wrote i.machine.store := fun q f hf => (rests.sound.closes hf).contained
  have kept := kept_noteRegime good p.script i
  have stable (m : Machine (Monitors (ω × List ε))) (wrote : p.script.Wrote m.store)
      (stack : m.stack = #[]) (none : m.monitor.notes = []) :
      (noteRegime ω p.script good).Stable () m := by
    refine ⟨⟨wrote, fun note hnote => ?_⟩, trivial, fun f hf => ?_⟩
    · rw [none] at hnote
      cases hnote
    · rw [stack] at hf
      cases Array.not_mem_empty _ hf
  constructor
  · intro n μ
    have agree := kept.callsProbed attends id n
    have run := kept.runWith_concludes agree p.script .top
      (stable (i.unnoted μ) wrote rests.stack rfl)
    rw [← attends.runWith_eq, ← program] at run
    exact ⟨i.probedRun_plain n μ notes, good_of_concludes run⟩
  · intro n μ name args keeps
    have agree := kept.callsProbed attends id n
    let begun : Machine (Monitors (ω × List ε)) :=
      { i.unnoted μ with store := (args i.machine.store).2 }
    have call := kept.callWith_concludes agree p.script .top
      (stable begun (wrote.of_keeps keeps) rests.stack rfl) name
      (fun v (_ : v ∈ (args i.machine.store).1) => trivial)
    exact ⟨i.probedCall_plain n μ notes name args, good_of_concludes call⟩

end Interpreter

end

end Footprint
