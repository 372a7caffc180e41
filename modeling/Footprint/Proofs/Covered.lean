import Mathlib
import Footprint.Proofs.DefinitionNumbers
import Footprint.Proofs.Idle
import Footprint.Proofs.Recording

set_option autoImplicit false

/-!
Coverage is sound and bounded: whatever a host does with an interpreter, every line that is told is
one of the code object that it is told for, and no tracer covers more than can be counted on the
script.
-/

namespace Footprint

section

variable {σ ω : Type}

/-- The line is one that is told for the code object with the number and the name. -/
def Script.Knows (s : Script) (f : FrameInfo) : Prop :=
  ∃ c, s.Contains c ∧ c.id = f.code ∧ c.name = f.function ∧ c.Tells f.line

theorem Script.Knows.hit {s : Script} {f : FrameInfo} (h : s.Knows f) :
    ⟨f.function, f.line⟩ ∈ s.hits := by
  obtain ⟨c, contained, -, name, told⟩ := h
  rw [← name]
  exact contained.hit told

/-- All functions in the store are defined in the script. -/
def Script.Wrote (script : Script) (s : Store) : Prop :=
  ∀ r f, s.function? r = some f → script.Contains (.function f.function)

theorem Script.Wrote.of_keeps {α : Type} {script : Script} {s : Store} {e : Edit α}
    (h : script.Wrote s) (keeps : e.KeepsFunctions) : script.Wrote (e s).2 := by
  intro r f hf
  apply h r f
  rwa [Store.function?, keeps s] at hf

namespace Datum

mutual

/-- The values that a host gives as trees are made without making functions. -/
theorem keeps_make (d : Datum) : d.make.KeepsFunctions := by
  intro s
  cases d with
  | list items | tuple items => exact keeps_makeAll items s
  | _ => rfl

theorem keeps_makeAll (ds : List Datum) : (makeAll ds).KeepsFunctions := by
  intro s
  cases ds with
  | nil => rfl
  | cons d ds => exact (keeps_makeAll ds _).trans (keeps_make d s)

end

end Datum

/-! ### Properties that a listener keeps -/

/-- As long as the lines that it hears are those of a script, the listener keeps a property of its
state. -/
def Listener.Keeps (l : Listener σ) (script : Script) (Q : σ → Prop) : Prop :=
  ∀ f e s, (e = .line → script.Knows f) → Q s → Q (l.hear f e s).2

/-- The protocol in which a property is kept while the code objects of a script run. -/
def Protocol.keeping (script : Script) (Q : σ → Prop) : Protocol σ :=
  .preserving script.Contains (fun _ _ => True) Q

section

variable {script : Script} {Q : σ → Prop} {env : Setting σ}
  (h : ∀ l ∈ env.listener, l.Keeps script Q)

include h

theorem Setting.keeps_hear {f : Frame} {d : Nat} {e : Event} {s : σ}
    (known : e = .line → script.Knows (f.info d)) (hs : Q s) : Q (env.hear f d e s).2 := by
  unfold hear
  split
  · next l hl =>
    split
    · exact h l hl _ _ _ known hs
    · exact hs
  · exact hs

theorem Protocol.keeping_hear : KeptByHearing env script.Contains (fun _ _ => True) Q := by
  intro f hs d e s _ told kept
  apply Setting.keeps_hear h _ kept
  intro line
  obtain ⟨c, known, runs, tells⟩ := told line
  exact ⟨c, known, runs.2.symm, runs.1.symm, tells⟩

theorem Protocol.keeping_admits : (keeping script Q).Admits env :=
  preserving_admits (fun known defines => known.inner defines) (fun _ _ => trivial)
    (keeping_hear h)

theorem Protocol.keeping_calls (n : Nat) :
    (keeping script Q).relation.Agree (env.calls n) (env.calls n) :=
  calls (keeping_admits h) (preserving_exceptions (keeping_hear h)) (fun _ _ => trivial) n

variable {m : Machine σ} (holds : script.Wrote m.store) (kept : Q m.monitor)

include holds kept

theorem keeps_runScript (n : Nat) :
    Q (env.runScript n script m).machine.monitor ∧
      (env.runScript n script m).Ends fun m' => script.Wrote m'.store ∧ Q m'.monitor := by
  have run := Protocol.runWith_concludes (Protocol.keeping_admits h) (Protocol.keeping_calls h n)
    script .top trivial holds
  have told := run.preserved kept
  refine ⟨told, run.ends.and (Ending.ends_of_machine (P := fun m' => Q m'.monitor) told) ?_⟩
  intro m' ended told
  exact ⟨ended.functions, told⟩

theorem keeps_callGlobal (n : Nat) (name : String) (args : List Value) :
    Q (env.callGlobal n name args m).machine.monitor ∧
      (env.callGlobal n name args m).Ends fun m' => script.Wrote m'.store ∧ Q m'.monitor := by
  have call := Protocol.callGlobal_concludes (Protocol.keeping_admits h)
    (Protocol.keeping_calls h n) script .top trivial holds name args
  have told := call.preserved kept
  refine ⟨told, call.ends.and (Ending.ends_of_machine (P := fun m' => Q m'.monitor) told) ?_⟩
  intro m' ended told
  exact ⟨ended.functions, told⟩

end

/-! ### What hosts do -/

/-- The listener leaves the tracers as they are. -/
def Listener.LeavesTracers (l : Listener (Monitors ω)) : Prop :=
  ∀ f e μ, (l.hear f e μ).2.tracers = μ.tracers

/-- Listeners of a host and tracers in front of them. -/
inductive Installed : Option (Listener (Monitors ω)) → Prop
  | none : Installed none
  | host {l : Listener (Monitors ω)} : l.LeavesTracers → Installed (some l)
  | tracer (index : Nat) {prior : Option (Listener (Monitors ω))} :
      Installed prior → Installed (some (tracerListener index prior))

/-- All lines that tracers have recorded are ones that may be hit. -/
def Monitors.Within (script : Script) (μ : Monitors ω) : Prop :=
  ∀ t ∈ μ.tracers, ∀ hit ∈ t.log, hit ∈ script.hits

theorem Tracer.mem_log_hear {t : Tracer} {f : FrameInfo} {e : Event} {hit : LineHit}
    (h : hit ∈ (t.hear f e).log) : hit ∈ t.log ∨ e = .line ∧ hit = ⟨f.function, f.line⟩ := by
  unfold hear at h
  split at h
  · next heard =>
    rw [Bool.and_eq_true, decide_eq_true_eq] at heard
    rcases Array.mem_push.1 h with old | new
    · exact .inl old
    · exact .inr ⟨heard.1, new⟩
  · exact .inl h

theorem Monitors.Within.hear {script : Script} {μ : Monitors ω} (h : μ.Within script)
    (index : Nat) {f : FrameInfo} {e : Event} (known : e = .line → script.Knows f) :
    Within script (⟨μ.tracers.modify index (·.hear f e), μ.host⟩ : Monitors ω) := by
  intro t ht hit hhit
  obtain ⟨i, hi, rfl⟩ := Array.mem_iff_getElem.1 ht
  simp only [Array.getElem_modify] at hhit
  split at hhit
  · rcases Tracer.mem_log_hear hhit with old | ⟨line, rfl⟩
    · exact h _ (Array.getElem_mem _) hit old
    · exact (known line).hit
  · exact h _ (Array.getElem_mem _) hit hhit

theorem Installed.keeps {listener : Option (Listener (Monitors ω))} (h : Installed listener)
    (script : Script) : ∀ l ∈ listener, l.Keeps script (Monitors.Within script) := by
  induction h with
  | none => nofun
  | host leaves =>
    intro l hl f e μ _ within
    cases hl
    intro t ht
    rw [leaves] at ht
    exact within t ht
  | @tracer index prior _ ih =>
    intro l hl f e μ known within
    cases hl
    have heard := within.hear index known
    cases prior with
    | none => exact heard
    | some p =>
      have told := ih p rfl f e _ known heard
      simp only [tracerListener]
      cases hp : p.hear f e ⟨μ.tracers.modify index (·.hear f e), μ.host⟩ with
      | mk answer ν =>
        rw [hp] at told
        cases answer with
        | ok c => exact told
        | error text => exact told

/-- A note is taken of lines of the script only. -/
def Monitors.Sound (script : Script) (μ : Monitors (ω × List Heard)) : Prop :=
  ∀ heard ∈ μ.notes, heard.event = .line → script.Knows heard.frame

theorem Listener.keeps_noting (l : Listener (Monitors ω)) (script : Script) :
    (l.noting Heard.mk).Keeps script (Monitors.Sound script) := by
  intro f e μ known sound heard hmem line
  rcases List.mem_append.1 hmem with old | new
  · exact sound heard old line
  · obtain rfl := List.mem_singleton.1 new
    exact known line

theorem Monitors.Within.size_le {script : Script} {μ : Monitors ω} (h : μ.Within script) :
    ∀ t ∈ μ.tracers, t.coverage.size ≤ script.hits.length := by
  intro t ht
  have distinct : t.coverage.hits.Nodup := by
    apply t.coverage.ascending.imp
    rintro a b before rfl
    exact a.not_before_self before
  apply distinct.length_le_of_subset
  intro hit hhit
  have recorded : hit ∈ t.log.toList := Coverage.mem_ofList.1 hhit
  exact h t ht hit (Array.mem_toList_iff.1 recorded)

/-- A line event is about the code object of the script that has its number and its name, and its
line is one of what belongs to that code object. -/
structure Script.Locates (s : Script) (f : FrameInfo) (c : Code) : Prop where
  contains : s.Contains c
  code : c.id = f.code
  function : c.name = f.function
  tells : c.Tells f.line
  only (d : Code) : s.Contains d → d.id = f.code → d = c

namespace Interpreter

variable {i j : Interpreter ω} {μ ν : Monitors ω} {p : Program} {limits : Limits}

/-- The interpreters that a host gets for a program, with the state of its listeners: it binds names
to values, puts listeners and tracers in place and takes them out, does as it likes with its own
state and with tracers but for what they have recorded, and lets the program run and calls global
functions. The host makes no functions. -/
inductive Hosted (p : Program) (limits : Limits) : Interpreter ω → Monitors ω → Prop
  | new (clock : Clock) (host : ω) : Hosted p limits (new p limits clock) ⟨#[], host⟩
  | bind {i : Interpreter ω} {μ : Monitors ω} (name : String) {make : Edit Value} :
      Hosted p limits i μ → make.KeepsFunctions → Hosted p limits (i.bind name make) μ
  | listen {i : Interpreter ω} {μ : Monitors ω} {listener : Option (Listener (Monitors ω))} :
      Hosted p limits i μ → Installed listener → Hosted p limits { i with listener } μ
  | monitors {i : Interpreter ω} {μ ν : Monitors ω} : Hosted p limits i μ →
      (∀ t ∈ ν.tracers, t.log = #[] ∨ ∃ u ∈ μ.tracers, t.log = u.log) → Hosted p limits i ν
  | run {i j : Interpreter ω} {n : Nat} {μ ν : Monitors ω} {r : Except Failure Unit} :
      Hosted p limits i μ → i.run n μ = some (r, j, ν) → Hosted p limits j ν
  | call {i j : Interpreter ω} {n : Nat} {μ ν : Monitors ω} {name : String}
      {args : Edit (List Value)} {r : Except Failure Value} : Hosted p limits i μ →
      args.KeepsFunctions → i.call n μ name args = some (r, j, ν) → Hosted p limits j ν

/-- What stays the case while a host goes on. -/
structure Kept (p : Program) (i : Interpreter ω) (μ : Monitors ω) : Prop where
  program : i.program = p
  wrote : p.script.Wrote i.machine.store
  installed : Installed i.listener
  within : μ.Within p.script

theorem Kept.keeps (h : Kept p i μ) :
    ∀ l ∈ i.setting.listener, l.Keeps p.script (Monitors.Within p.script) :=
  h.installed.keeps p.script

theorem Hosted.kept (h : Hosted p limits i μ) : Kept p i μ := by
  induction h with
  | new clock host =>
    refine ⟨rfl, ?_, .none, nofun⟩
    intro r f hf
    cases hf
  | bind name _ keeps ih =>
    exact ⟨ih.program, fun r f hf => ih.wrote.of_keeps keeps r f hf, ih.installed, ih.within⟩
  | listen _ installed ih => exact ⟨ih.program, ih.wrote, installed, ih.within⟩
  | monitors _ same ih =>
    refine ⟨ih.program, ih.wrote, ih.installed, fun t ht hit hhit => ?_⟩
    rcases same t ht with empty | ⟨u, hu, log⟩
    · rw [empty] at hhit
      exact absurd hhit (Array.not_mem_empty hit)
    · exact ih.within u hu hit (log ▸ hhit)
  | @run i j n μ ν r _ ended ih =>
    obtain rfl := ih.program
    have run := keeps_runScript (m := i.machine.withMonitor μ) ih.keeps ih.wrote ih.within n
    obtain ⟨m, ⟨wrote, within⟩, rfl, rfl⟩ := ends_of_act ended run.2
    exact ⟨rfl, wrote, ih.installed, within⟩
  | @call i j n μ ν name args r _ keeps ended ih =>
    have call := keeps_callGlobal
      (m := { i.machine.withMonitor μ with store := (args i.machine.store).2 })
      ih.keeps (ih.wrote.of_keeps keeps) ih.within n name (args i.machine.store).1
    obtain ⟨m, ⟨wrote, within⟩, rfl, rfl⟩ := ends_of_act ended call.2
    exact ⟨ih.program, wrote, ih.installed, within⟩

/-- The run of the program, with a note taken of each event. -/
def noteRun (i : Interpreter ω) (n : Nat) (μ : Monitors ω) :
    Ending (Monitors (ω × List Heard)) Unit :=
  (i.noting Heard.mk).setting.runScript n i.program.script (i.unnoted μ)

/-- The call of a global function, with a note taken of each event. -/
def noteCall (i : Interpreter ω) (n : Nat) (μ : Monitors ω) (name : String)
    (args : Edit (List Value)) : Ending (Monitors (ω × List Heard)) Value :=
  (do
    let vs ← Action.edit args
    (i.noting Heard.mk).setting.callGlobal n name vs) (i.unnoted μ)

theorem noteRun_plain (i : Interpreter ω) (n : Nat) (μ : Monitors ω) :
    (i.noteRun n μ).plain = i.setting.runScript n i.program.script (i.machine.withMonitor μ) :=
  plain_runWith (alike_noting Heard.mk i) ((alike_noting Heard.mk i).calls n) (unnoted_alike i μ)

theorem noteCall_plain (i : Interpreter ω) (n : Nat) (μ : Monitors ω) (name : String)
    (args : Edit (List Value)) :
    (i.noteCall n μ name args).plain =
      (do let vs ← Action.edit args; i.setting.callGlobal n name vs) (i.machine.withMonitor μ) :=
  plain_callWith (alike_noting Heard.mk i) ((alike_noting Heard.mk i).calls n) (unnoted_alike i μ)
    name args

theorem keeps_noting (i : Interpreter ω) (script : Script) :
    ∀ l ∈ (i.noting Heard.mk).setting.listener, l.Keeps script (Monitors.Sound script) := by
  intro l hl
  obtain ⟨prior, -, rfl⟩ := Option.map_eq_some_iff.1 hl
  exact prior.keeps_noting script

theorem Kept.sound_noteRun (h : Kept p i μ) (n : Nat) :
    (i.noteRun n μ).machine.monitor.Sound p.script := by
  obtain ⟨rfl, wrote, -, -⟩ := h
  exact (keeps_runScript (m := i.unnoted μ) (i.keeps_noting _) wrote nofun n).1

theorem Kept.sound_noteCall (h : Kept p i μ) (n : Nat) (name : String)
    {args : Edit (List Value)} (keeps : args.KeepsFunctions) :
    (i.noteCall n μ name args).machine.monitor.Sound p.script := by
  obtain ⟨rfl, wrote, -, -⟩ := h
  exact (keeps_callGlobal (m := { i.unnoted μ with store := (args i.machine.store).2 })
    (i.keeps_noting _) (wrote.of_keeps keeps) nofun n name (args i.machine.store).1).1

/-- Whatever a host does with an interpreter for a parsed program, each line event that is then told
in a run or a call, ended or not, is about the one code object that it names, and no tracer ever
covers more lines than there are statements, without those that only declare, with those that are
bare expressions and with one more for each decorator and each class. -/
theorem coverage_bounded {source : String} (parsed : Program.ofSource source = .ok p)
    (hosted : Hosted p limits i μ) :
    (∀ n, (i.noteRun n μ).plain = i.setting.runScript n p.script (i.machine.withMonitor μ) ∧
      ∀ heard ∈ (i.noteRun n μ).machine.monitor.notes, heard.event = .line →
        ∃ c, p.script.Locates heard.frame c) ∧
    (∀ n name (args : Edit (List Value)), args.KeepsFunctions →
      (i.noteCall n μ name args).plain =
        (do let vs ← Action.edit args; i.setting.callGlobal n name vs)
          (i.machine.withMonitor μ) ∧
      ∀ heard ∈ (i.noteCall n μ name args).machine.monitor.notes, heard.event = .line →
        ∃ c, p.script.Locates heard.frame c) ∧
    ∀ t ∈ μ.tracers, t.coverage.size + p.script.count Node.isDeclaration ≤
      p.statements + p.script.count Node.isExpressionStatement + p.script.decorators.length +
        p.script.count Node.isClass := by
  have kept := hosted.kept
  have numbered : p.script.IsNumbered := by
    unfold Program.ofSource at parsed
    split at parsed
    · next script hscript =>
      cases parsed
      exact isNumbered_of_parse hscript
    · cases parsed
  have located {f : FrameInfo} (h : p.script.Knows f) : ∃ c, p.script.Locates f c := by
    obtain ⟨c, contains, code, function, tells⟩ := h
    exact ⟨c, contains, code, function, tells, fun d hd same =>
      hd.eq_of_id numbered contains (same.trans code.symm)⟩
  refine ⟨fun n => ⟨?_, ?_⟩, fun n name args keeps => ⟨?_, ?_⟩, fun t ht => ?_⟩
  · rw [noteRun_plain, kept.program]
  · exact fun heard hmem line => located (kept.sound_noteRun n heard hmem line)
  · exact noteCall_plain i n μ name args
  · exact fun heard hmem line => located (kept.sound_noteCall n name keeps heard hmem line)
  · have size := kept.within.size_le t ht
    have length := p.script.length_hits
    unfold Program.statements
    omega

/-- A script of one statement, run with a name bound to a list and with a tracer. -/
theorem coverage_bounded_pass :
    let p : Program := ⟨"pass\n", ⟨[.pass .start]⟩⟩
    let i : Interpreter Unit :=
      ((new p .default .steady).bind "x" (Datum.list [.int 1]).make).enter 0
    Program.ofSource "pass\n" = .ok p ∧
    ∃ r j ν, i.run 3 ⟨#[.new], ()⟩ = some (r, j, ν) ∧ ∀ t ∈ ν.tracers, t.coverage.size ≤ 1 := by
  intro p i
  have parsed : Program.ofSource "pass\n" = .ok p := by cbv
  obtain ⟨⟨r, j, ν⟩, ended⟩ := Option.isSome_iff_exists.1
    (show (i.run 3 ⟨#[.new], ()⟩).isSome = true by decide +kernel)
  have bound :
      Hosted p .default ((new p .default .steady : Interpreter Unit).bind "x" _) ⟨#[], ()⟩ :=
    .bind "x" (.new .steady ()) (Datum.keeps_make (.list [.int 1]))
  have hosted : Hosted p .default j ν := by
    refine .run (.monitors (.listen bound (.tracer 0 .none)) fun t ht => .inl ?_) ended
    obtain rfl : t = .new := by simpa using ht
    rfl
  refine ⟨parsed, r, j, ν, ended, fun t ht => ?_⟩
  have bound := (coverage_bounded parsed hosted).2.2 t ht
  have counts : p.statements + p.script.count Node.isExpressionStatement +
      p.script.decorators.length + p.script.count Node.isClass = 1 := by cbv
  omega

end Interpreter

end

end Footprint
