import Mathlib
import Footprint.Proofs.FormedScripts
import Footprint.Proofs.LineageRegime
import Footprint.Proofs.RegimeHistories

set_option autoImplicit false

/-!
The chain of scopes at run time mirrors the nesting of the definitions in the text: whatever a host
does with a parsed program, the scopes around a function, an activation or a class body have been
made for activations of the functions around it, one for each.
-/

namespace Footprint

namespace Lineage

variable {ω α : Type} {w : Lineage} {s : Script} {store : Store}

/-! ### Histories -/

section

variable {p : Program} {limits : Limits} {i j : Interpreter ω} {μ ν : Monitors ω}
  {given : List Value} {film : List Scene}

/-- The lineage of an interpreter between the steps of a host. -/
structure Rests (w : Lineage) (s : Script) (i : Interpreter ω) (given : List Value)
    (film : List Scene) : Prop where
  sound : w.Sound s i.machine.store
  faithful : w.Faithful s
  film : w.film = film
  given : ∀ v ∈ given, w.Good v
  stack : i.machine.stack = #[]
  returned : i.machine.returned = .none

theorem Rests.stable (rests : w.Rests s i given film) (μ : Monitors ω) :
    (regime ω s).Stable w (i.reel μ film) where
  holds := ⟨rests.sound, rests.faithful, rests.film.symm⟩
  returned := by
    change w.Good i.machine.returned
    rw [rests.returned]
    exact .plain rfl
  stands f hf := by
    rw [show (i.reel μ film).stack = #[] from rests.stack] at hf
    exact absurd hf (Array.not_mem_empty f)

theorem Rests.good (rests : w.Rests s i given film) {v : Value}
    (h : (Gift.back v).IsFrom i.machine.store given) : w.Good v :=
  h.elim rests.sound.stored (rests.given v)

theorem Rests.filmRun (rests : w.Rests s i given film) (parsed : s.IsParsed)
    (same : i.program.script = s) (n : Nat) (μ : Monitors ω) :
    (regime ω s).Concludes w (regime ω s).any (i.reel μ film) (i.filmRun n μ film) :=
  (kept ω parsed i).runWith_concludes (filming_agrees parsed i n) _ (same ▸ .top)
    (rests.stable μ)

theorem Rests.filmCall (rests : w.Rests s i given film) (parsed : s.IsParsed) (n : Nat)
    (μ : Monitors ω) (name : String) {args : List Gift}
    (from_ : ∀ gift ∈ args, gift.IsFrom i.machine.store given) :
    (regime ω s).Concludes w Good (i.reel μ film)
      (i.filmCall n μ name (Gift.makeAll args) film) := by
  exact (kept ω parsed i).callGifts_concludes (filming_agrees parsed i n) s .top (rests.stable μ)
    name fun v hv => rests.good (from_ _ hv)

/-- What has come of a filmed computation when its unfilmed counterpart has ended. -/
theorem Rests.of_act {P : Lineage → α → Prop} {x : Setting (Monitors ω) → Action (Monitors ω) α}
    {r : Except Failure α} {e : Ending (Monitors (ω × List Scene)) α}
    (rests : w.Rests s i given film) (ended : i.act μ x = some (r, j, ν))
    (plain : e.plain = x i.setting (i.machine.withMonitor μ))
    (concludes : (regime ω s).Concludes w P (i.reel μ film) e) (idle : j.machine.Idle) :
    ∃ w', w'.Rests s j given e.machine.monitor.notes ∧ (∀ a, r = .ok a → P w' a) ∧
      j.program = i.program := by
  obtain ⟨w', later, ⟨sound, faithful, film⟩, value, program⟩ := concludes.of_act ended plain
  exact ⟨w', ⟨sound, faithful, film.symm, fun v hv => (rests.given v hv).mono later, idle.stack,
    idle.returned⟩, value, program⟩

theorem sound_initial (s : Script) : Sound ⟨[.top s], 0, []⟩ s .initial := by
  have parent (r : ScopeRef) : Store.initial.parent r = none := by
    rw [Store.initial, Store.parent_newScope]
    split <;> rfl
  have unbound {r : ScopeRef} {n : String} {v : Value} (h : Store.initial.get? r n = some v) :
      False := nomatch Store.get?_of_newScope h
  exact {
    size := rfl
    functions := rfl
    global := rfl
    contained := fun c hc => List.mem_singleton.1 hc ▸ .top
    parent := by
      intro r c fs owner nests
      obtain rfl := List.mem_singleton.1 (List.mem_of_getElem? owner)
      rw [parent]
      cases nests with
      | top => trivial
      | inner _ defines => nomatch defines
    older := fun r q hq => nomatch (parent r).symm.trans hq
    good := fun h => (unbound h).elim
    bound := fun h => (unbound h).elim
    closes := fun h => nomatch h
    items := fun h => nomatch h
    frames := fun scene hscene => absurd hscene List.not_mem_nil }

theorem rests_new (p : Program) (limits : Limits) (clock : Clock) :
    Rests ⟨[.top p.script], 0, []⟩ p.script (Interpreter.new p limits clock : Interpreter ω) []
      [] where
  sound := sound_initial p.script
  faithful before scene after split := by simp at split
  film := rfl
  given v hv := absurd hv List.not_mem_nil
  stack := rfl
  returned := rfl

theorem Rests.bind (rests : w.Rests s i given film) (parsed : s.IsParsed) {gift : Gift}
    (offered : gift.IsFrom i.machine.store given) (name : String) :
    ∃ w' : Lineage, w'.Rests s (i.bind name gift.make) given film := by
  -- the state of no listener matters here
  obtain ⟨w', later, ⟨sound, told, same⟩, good⟩ :=
    (kept Unit parsed (.new ⟨"", s⟩ .default .steady)).makeGift (μ := ⟨#[], ((), film)⟩)
      ⟨rests.sound, rests.faithful, rests.film.symm⟩ fun v same => rests.good (same ▸ offered)
  refine ⟨w', sound.set good fun c owner f hf => ?_, told, same.symm, fun v hv =>
    (rests.given v hv).mono later, rests.stack, rests.returned⟩
  cases (sound.global.symm.trans owner).symm
  cases hf

/-- Between the steps of a host there is a lineage of the interpreter. -/
theorem exists_rests (parsed : p.script.IsParsed)
    (h : Interpreter.Filmed p limits i given film) :
    i.program = p ∧ ∃ w : Lineage, w.Rests p.script i given film := by
  induction h with
  | new clock => exact ⟨rfl, _, rests_new p limits clock⟩
  | bind name _ offered ih =>
    obtain ⟨program, w, rests⟩ := ih
    exact ⟨program, rests.bind parsed offered name⟩
  | listen listener _ ih =>
    obtain ⟨program, w, rests⟩ := ih
    exact ⟨program, w, rests.sound, rests.faithful, rests.film, rests.given, rests.stack,
      rests.returned⟩
  | @run i j given film n μ ν r filmed ended ih =>
    obtain ⟨program, w, rests⟩ := ih
    have same : i.program.script = p.script := congrArg Program.script program
    obtain ⟨w', rests', -, program'⟩ := rests.of_act ended (i.filmRun_plain n μ film)
      (rests.filmRun parsed same n μ) (Interpreter.idle_of_run filmed.reached.idle ended)
    exact ⟨program'.trans program, w', rests'⟩
  | @call i j given film n μ ν name args r filmed offered ended ih =>
    obtain ⟨program, w, rests⟩ := ih
    obtain ⟨w', rests', good, program'⟩ := rests.of_act ended (i.filmCall_plain n μ name _ film)
      (rests.filmCall parsed n μ name offered)
      (Interpreter.idle_of_call filmed.reached.idle ended)
    exact ⟨program'.trans program, w',
      { rests' with given := Interpreter.forall_given_of_result rests'.given good }⟩

theorem throughout_of_concludes {P : Lineage → α → Prop}
    {m : Machine (Monitors (ω × List Scene))} {e : Ending (Monitors (ω × List Scene)) α}
    (concludes : (regime ω s).Concludes w P m e) :
    Throughout (fun film store => s.Mirrors film store ∧ s.BindsOwn film store)
      e.machine.monitor.notes := by
  obtain ⟨w', -, -, faithful, same⟩ := concludes.holds
  rw [same]
  exact faithful

theorem parse_of_source {source : String} (h : Program.ofSource source = .ok p) :
    parse source = .ok p.script := by
  unfold Program.ofSource at h
  split at h
  · next script hscript =>
    cases h
    exact hscript
  · cases h

theorem isParsed_of_source {source : String} (h : Program.ofSource source = .ok p) :
    p.script.IsParsed :=
  ⟨isNumbered_of_parse (parse_of_source h), isBound_of_parse (parse_of_source h)⟩

/-- What follows from scopes being as the script has them is the case whatever a host does. -/
theorem upholds {source : String} (parsed : Program.ofSource source = .ok p)
    (h : Interpreter.Filmed p limits i given film) {P : List Scene → Store → Prop}
    (hP : ∀ film store, p.script.Mirrors film store → p.script.BindsOwn film store →
      P film store) : i.Upholds given film P := by
  have parsed := isParsed_of_source parsed
  obtain ⟨program, w, rests⟩ := exists_rests parsed h
  have follows (film : List Scene) (store : Store) :
      p.script.Mirrors film store ∧ p.script.BindsOwn film store → P film store :=
    fun told => hP film store told.1 told.2
  constructor
  · rw [← rests.film]
    exact hP _ _ rests.sound.mirrored rests.sound.bindsOwn
  · intro n μ
    have same : i.program.script = p.script := congrArg Program.script program
    exact ⟨i.filmRun_plain n μ film,
      (throughout_of_concludes (rests.filmRun parsed same n μ)).imp follows⟩
  · intro n μ name args offered
    exact ⟨i.filmCall_plain n μ name _ film,
      (throughout_of_concludes (rests.filmCall parsed n μ name offered)).imp follows⟩

end

end Lineage

namespace Interpreter

variable {ω : Type} {source : String} {p : Program} {limits : Limits} {i : Interpreter ω}
  {given : List Value} {film : List Scene}

/-- The scope chain at run time mirrors the nesting of the text: whatever a host does with a parsed
program, the scopes around a function, an activation or a class body have been made for activations
of the functions around it in the text, innermost first, one for each, and the namespaces of classes
are around nothing. Which functions the text has around a definition is determined. -/
theorem scopes_nested (parsed : Program.ofSource source = .ok p)
    (h : Filmed p limits i given film) :
    (∀ c, p.script.Contains c → ∃! fs, p.script.Nests c fs) ∧
      i.Upholds given film p.script.Mirrors := by
  have numbered := (Lineage.isParsed_of_source parsed).numbered
  refine ⟨fun c contained => ?_, Lineage.upholds parsed h fun _ _ mirrors _ => mirrors⟩
  obtain ⟨fs, nests⟩ := contained.nests
  exact ⟨fs, nests, fun gs nests' => nests'.unique numbered nests⟩

/-- A function in a function, which is called there. -/
theorem scopes_nested_inner :
    let inner : Function := ⟨⟨"g", false, [], [], none, 2, ⟨[], [], []⟩, ⟨2, 5⟩, 3⟩, [.pass ⟨3, 9⟩]⟩
    let outer : Function := ⟨⟨"f", false, [], [], none, 1, ⟨["g"], [], []⟩, ⟨1, 1⟩, 4⟩,
      [.function inner.head inner.body, .expr (.call (.name "g" ⟨4, 5⟩) [] ⟨4, 5⟩) ⟨4, 5⟩]⟩
    let p : Program := ⟨"def f():\n    def g():\n        pass\n    g()\nf()\n",
      ⟨[.function outer.head outer.body, .expr (.call (.name "f" ⟨5, 1⟩) [] ⟨5, 1⟩) ⟨5, 1⟩]⟩⟩
    let i : Interpreter Unit := .new p .default .steady
    let film := (i.filmRun 12 ⟨#[], ()⟩ []).machine.monitor.notes
    Program.ofSource p.source = .ok p ∧ ∃ r j ν, i.run 12 ⟨#[], ()⟩ = some (r, j, ν) ∧
      ∀ q, Activated film inner q →
        ∃ o, j.machine.store.ancestors q = [o] ∧ Activated film outer o := by
  intro inner outer p i film
  have parsed : Program.ofSource p.source = .ok p := by cbv
  obtain ⟨⟨r, j, ν⟩, ended⟩ := Option.isSome_iff_exists.1
    (show (i.run 12 ⟨#[], ()⟩).isSome = true by decide +kernel)
  have filmed : Filmed p .default j [] film := .run (.new .steady) ended
  obtain ⟨unique, upheld⟩ := scopes_nested parsed filmed
  have first : (Code.top p.script).Defines (.function outer) :=
    .function (.body List.mem_cons_self)
  have second : (Code.function outer).Defines (.function inner) :=
    .function (.body List.mem_cons_self)
  have around : p.script.Nests (.function inner) [outer] := .inner (.inner .top first) second
  refine ⟨parsed, r, j, ν, ended, fun q shown => ?_⟩
  obtain ⟨fs, nests, scopes⟩ := upheld.rest.activations shown
  obtain rfl := (unique _ around.contains).unique nests around
  generalize j.machine.store.ancestors q = chain at scopes ⊢
  cases scopes with
  | cons activated rest =>
    cases rest with
    | nil => exact ⟨_, rfl, activated⟩

end Interpreter

end Footprint
