import Footprint.Proofs.BoundNames
import Footprint.Proofs.GoodNotes

set_option autoImplicit false

/-!
What names a run binds and unbinds. A probe takes a note whenever a name is about to be bound or
unbound in the current frame; in an activation of a function it is always one of those that have been
found in the text of the function.
-/

namespace Footprint

open Footprint.Action Footprint.Setting

/-- A name is bound or unbound in a frame. -/
structure Naming where
  kind : FrameKind
  name : String

/-- In an activation of a function the name is one of those that are stored with it. -/
def Naming.Listed (note : Naming) : Prop :=
  ∀ f r, note.kind = .function f r →
    note.name ∈ f.head.bound.locals ∨ note.name ∈ f.head.bound.globals ∨
      note.name ∈ f.head.bound.nonlocals

section

variable {ω : Type}

/-- Takes a note of each name that is bound or unbound, and of the frame. -/
def Probe.names : Probe (Monitors (ω × List Naming)) where
  naming name m := .done ()
    { m with monitor := m.monitor.addNote ⟨(m.stack.back?.getD .top).kind, name⟩ }
  entering := pure ()
  rejecting _ := pure ()

theorem Probe.takesNotes_names : (Probe.names : Probe (Monitors (ω × List Naming))).TakesNotes where
  naming _ := Probe.alike_note _
  entering := .pure ()
  rejecting _ := .pure ()

/-- What belongs to a function of a parsed script binds and unbinds listed names. -/
theorem Naming.attends {s : Script} (parsed : s.IsParsed) :
    (noteRegime ω s Naming.Listed).Attends .names where
  entering := rfl
  rejecting _ _ _ w' _ _ ready := ⟨w', trivial, ready.same rfl rfl rfl rfl, trivial⟩
  naming {c w name} contained binds := by
    intro w' _ m ready
    obtain ⟨⟨wrote, listed⟩, returned, stack, f, hm, runs, frame, stands⟩ := ready
    refine ⟨(), trivial, ⟨⟨wrote, ?_⟩, trivial, stack, f, f.line, f.reported, hm, hm⟩, trivial⟩
    intro note hnote
    rcases List.mem_append.1 hnote with hnote | hnote
    · exact listed note hnote
    · obtain rfl := List.mem_singleton.1 hnote
      intro g r kind
      rw [hm, Array.back?_push] at kind
      obtain rfl := frame g r kind
      exact (contained.isBound parsed.bound).namesAsText.listed binds

namespace Interpreter

variable (i : Interpreter ω) (n : Nat) (μ : Monitors ω)

/-- The run of the program, with a note taken of each name that is bound or unbound. -/
def nameRun : Ending (Monitors (ω × List Naming)) Unit := i.probedRun .names n μ

/-- The call of a global function, with a note taken of each name that is bound or unbound. -/
def nameCall (name : String) (args : Edit (List Value)) :
    Ending (Monitors (ω × List Naming)) Value := i.probedCall .names n μ name args

variable {source : String} {p : Program} {limits : Limits} {i : Interpreter ω}
  {given : List Value} {film : List Scene}

/-- What the text says of the names of functions is what happens: whatever a host does with a parsed
program, all that is bound and unbound in an activation of a function is among the names that have
been found in its text, as locals, globals and nonlocals; other names are never bound there. -/
theorem names_listed (parsed : Program.ofSource source = .ok p) :
    (∀ f, p.script.Contains (.function f) → f.NamesAsText) ∧
    (Filmed p limits i given film → ∀ n μ,
      ((i.nameRun n μ).plain =
          i.setting.runScript n i.program.script (i.machine.withMonitor μ) ∧
        ∀ note ∈ (i.nameRun n μ).machine.monitor.notes, note.Listed) ∧
      ∀ name (args : Edit (List Value)), args.KeepsFunctions →
        (i.nameCall n μ name args).plain =
            (do let vs ← edit args; i.setting.callGlobal n name vs) (i.machine.withMonitor μ) ∧
          ∀ note ∈ (i.nameCall n μ name args).machine.monitor.notes, note.Listed) := by
  have text := Lineage.isParsed_of_source parsed
  refine ⟨fun f contained => (contained.isBound text.bound).namesAsText, fun filmed n μ => ?_⟩
  have good := notesGood parsed filmed Probe.takesNotes_names (Naming.attends text)
  exact ⟨good.run n μ, fun name args keeps => good.call n μ name keeps⟩

section

set_option maxRecDepth 1000

/-- A loop whose target is a global name, in a function that binds and unbinds a name of its own. -/
theorem names_listed_loop :
    let head : FunctionHead :=
      ⟨"f", false, [⟨"a", none, none, ⟨1, 7⟩⟩], [], none, 1, ⟨["a", "x"], ["g"], []⟩, ⟨1, 1⟩, 5⟩
    let body : List Stmt := [.globalDecl ["g"] ⟨2, 5⟩,
      .forLoop (.name "g" ⟨3, 9⟩) (.list [.name "a" ⟨3, 15⟩] ⟨3, 14⟩)
        [.assign [.name "x" ⟨4, 9⟩] (.name "g" ⟨4, 13⟩) ⟨4, 9⟩] [] ⟨3, 5⟩,
      .delete [.name "x" ⟨5, 9⟩] ⟨5, 5⟩]
    let called : Stmt := .expr (.call (.name "f" ⟨6, 1⟩) [.const (.int 1) ⟨6, 3⟩] ⟨6, 1⟩) ⟨6, 1⟩
    let p : Program :=
      ⟨"def f(a):\n    global g\n    for g in [a]:\n        x = g\n    del x\nf(1)\n",
        ⟨[.function head body, called]⟩⟩
    let i : Interpreter Unit := .new p .default .steady
    let notes := (i.nameRun 15 ⟨#[], ()⟩).machine.monitor.notes
    let two : Edit (List Value) := fun s => ([.int 2], s)
    Program.ofSource p.source = .ok p ∧ (Function.mk head body).NamesAsText ∧
      notes.map (·.name) = ["f", "g", "x", "x"] ∧ (∀ note ∈ notes, note.Listed) ∧
      ∃ r j ν, i.run 15 ⟨#[], ()⟩ = some (r, j, ν) ∧
        ∀ note ∈ (j.nameCall 15 ν "f" two).machine.monitor.notes, note.Listed := by
  intro head body called p i notes two
  have parsed : Program.ofSource p.source = .ok p := by cbv
  have begun : Filmed p .default i [] [] := .new .steady
  obtain ⟨⟨r, j, ν⟩, ended⟩ := Option.isSome_iff_exists.1
    (show (i.run 15 ⟨#[], ()⟩).isSome = true by decide +kernel)
  have after : Filmed p .default j [] _ := .run begun ended
  have contained : p.script.Contains (.function ⟨head, body⟩) :=
    .inner .top (.function (.body List.mem_cons_self))
  obtain ⟨asText, listed⟩ := @names_listed Unit p.source p .default i [] [] parsed
  obtain ⟨-, listedAfter⟩ := names_listed parsed
  exact ⟨parsed, asText _ contained, by decide +kernel, (listed begun 15 ⟨#[], ()⟩).1.2, r, j, ν,
    ended, ((listedAfter after 15 ν).2 "f" two fun _ => rfl).2⟩

end

end Interpreter

end

end Footprint
