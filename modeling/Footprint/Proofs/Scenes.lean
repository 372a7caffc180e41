import Footprint.Proofs.Idle
import Footprint.Proofs.Recording

set_option autoImplicit false

/-!
Scenes of a run: the store and the frames before something is asked for and after it has been
answered. A filmed run is the run itself, in which a note is taken of each scene; the film goes on
over all runs and calls of a host.
-/

namespace Footprint

structure Scene where
  store : Store
  stack : Array Frame

section

variable {ω α : Type}

/-- The machine after a note of its scene has been taken. -/
def Machine.shot (m : Machine (Monitors (ω × List Scene))) :
    Machine (Monitors (ω × List Scene)) :=
  { m with monitor := m.monitor.addNote ⟨m.store, m.stack⟩ }

/-- Runs a computation, with a note taken of the scene before it and of the scene after it. -/
def Action.filmed (x : Action (Monitors (ω × List Scene)) α) :
    Action (Monitors (ω × List Scene)) α := fun m =>
  match x m.shot with
  | .done a m => .done a m.shot
  | .failed f m => .failed f m.shot
  | .unfinished m => .unfinished m

/-- What answers requests that are nested at most so deep, with notes taken of the scenes. -/
def Setting.filming (env : Setting (Monitors (ω × List Scene))) :
    Nat → Calls (Monitors (ω × List Scene))
  | 0 => ⟨fun _ => .unfinished, fun _ => .unfinished, fun _ => .unfinished⟩
  | n + 1 =>
    { value := fun t => .filmed (env.evaluation (env.filming n) t)
      place := fun t => .filmed (placement (env.filming n) t)
      run := fun t => .filmed (env.execution (env.filming n) t) }

/-- The listener, with notes kept beside its state. -/
def Listener.aside (ε : Type) (l : Listener (Monitors ω)) : Listener (Monitors (ω × List ε)) where
  hear frame e μ :=
    let (answer, ν) := l.hear frame e μ.plain
    (answer, ⟨ν.tracers, (ν.host, μ.notes)⟩)

/-- At the end of each part of the film this is the case with the store. -/
def Throughout (P : List Scene → Store → Prop) (film : List Scene) : Prop :=
  ∀ before scene after, film = before ++ scene :: after → P (before ++ [scene]) scene.store

theorem Throughout.imp {P Q : List Scene → Store → Prop} {film : List Scene}
    (h : Throughout P film) (hQ : ∀ film store, P film store → Q film store) :
    Throughout Q film :=
  fun before scene after split => hQ _ _ (h before scene after split)

theorem Throughout.concat {P : List Scene → Store → Prop} {film : List Scene} {last : Scene}
    (h : Throughout P film) (hlast : P (film ++ [last]) last.store) :
    Throughout P (film ++ [last]) := by
  intro before scene after split
  rcases after.eq_nil_or_concat with rfl | ⟨after, end_, rfl⟩
  · obtain ⟨rfl, same⟩ := List.append_inj' split rfl
    cases same
    exact hlast
  · rw [List.concat_eq_append, ← List.cons_append, ← List.append_assoc] at split
    exact h before scene after (List.append_inj' split rfl).1

/-! ### What a host hands in -/

/-- The value is in a scope or in a list, is the value of a default, or is part of a tuple that
is. -/
inductive Store.Stores (store : Store) : Value → Prop
  | binding {r : ScopeRef} {n : String} {v : Value} : store.get? r n = some v → Stores store v
  | item {l : ListRef} {v : Value} : v ∈ store.items l → Stores store v
  | default {q : FunctionRef} {f : Closure} {v : Value} : store.function? q = some f →
      v ∈ f.defaults → Stores store v
  | part {id : Nat} {vs : List Value} {v : Value} : Stores store (.tuple id vs) → v ∈ vs →
      Stores store v

/-- What a host hands to an interpreter: a value of its own, or one that it has from there. -/
inductive Gift where
  | new (d : Datum)
  | back (v : Value)

namespace Gift

def make : Gift → Edit Value
  | new d => d.make
  | back v => .value v

def makeAll : List Gift → Edit (List Value)
  | [] => fun s => ([], s)
  | g :: gs => fun s =>
    let (v, s) := g.make s
    let (vs, s) := makeAll gs s
    (v :: vs, s)

/-- The value is one of those that the host has been given, or that it can look up. -/
def IsFrom (store : Store) (given : List Value) : Gift → Prop
  | new _ => True
  | back v => store.Stores v ∨ v ∈ given

end Gift

/-! ### Filmed runs are the runs themselves -/

theorem Machine.Alike.shot {m : Machine (Monitors ω)} {m' : Machine (Monitors (ω × List Scene))}
    (h : m.Alike (.noted ω Scene) m') : m.Alike (.noted ω Scene) m'.shot :=
  { h with monitor := h.monitor }

theorem Action.Alike.filmed {x : Action (Monitors ω) α}
    {y : Action (Monitors (ω × List Scene)) α} (h : Alike (.noted ω Scene) x y) :
    Alike (.noted ω Scene) x (filmed y) := by
  intro m m' hm
  unfold Action.filmed
  rcases (h hm.shot).cases with ⟨a, n, n', e, e', hn⟩ | ⟨f, n, n', e, e', hn⟩ | ⟨n, n', e, e', hn⟩ <;>
    simp only [e, e']
  · exact .done a hn.shot
  · exact .failed f hn.shot
  · exact .unfinished hn

theorem Setting.filming_alike {env : Setting (Monitors ω)}
    {env' : Setting (Monitors (ω × List Scene))} (h : env.Alike (.noted ω Scene) env') (n : Nat) :
    (Likeness.noted ω Scene).relation.Agree (env.calls n) (env'.filming n) := by
  induction n with
  | zero => exact h.closed.unanswered fun c _ _ _ => (h.closed.steps c).unfinished
  | succ n ih =>
    constructor
    · exact fun known t => (h.closed.evaluation ih known t).filmed
    · exact fun known t => (h.closed.placement ih known t).filmed
    · exact fun known t allowed => (h.closed.execution ih known h.encloses allowed).filmed
    · exact fun known b owned => (h.closed.runBlock ih known (.of_final owned)).filmed

namespace Interpreter

variable {i j : Interpreter ω} {μ ν : Monitors ω} {n : Nat}

/-- The interpreter, with notes kept beside the state of its listener. -/
def aside (ε : Type) (i : Interpreter ω) : Interpreter (ω × List ε) :=
  { i with listener := i.listener.map (Listener.aside ε) }

theorem alike_aside (ε : Type) (i : Interpreter ω) :
    i.setting.Alike (.noted ω ε) (i.aside ε).setting := by
  refine Setting.alike_of_hear rfl rfl fun f d e μ ν h => ?_
  unfold Setting.hear setting aside
  cases i.listener with
  | none => exact ⟨rfl, h⟩
  | some l =>
    dsimp only [Option.map_some]
    rw [h]
    split
    · exact ⟨rfl, rfl⟩
    · exact ⟨rfl, rfl⟩

theorem notes_hear_aside {ε : Type} (i : Interpreter ω) (f : Frame) (d : Nat) (e : Event)
    (μ : Monitors (ω × List ε)) : ((i.aside ε).setting.hear f d e μ).2.notes = μ.notes := by
  unfold Setting.hear setting aside
  cases i.listener with
  | none => rfl
  | some l =>
    dsimp only [Option.map_some]
    split
    · rfl
    · rfl

/-- The machine of the interpreter with notes that have been taken before. -/
def reel (i : Interpreter ω) (μ : Monitors ω) (film : List Scene) :
    Machine (Monitors (ω × List Scene)) :=
  i.machine.withMonitor ⟨μ.tracers, (μ.host, film)⟩

theorem reel_alike (i : Interpreter ω) (μ : Monitors ω) (film : List Scene) :
    (i.machine.withMonitor μ).Alike (.noted ω Scene) (i.reel μ film) :=
  ⟨rfl, rfl, rfl, rfl, rfl, rfl, rfl, rfl, rfl⟩

/-- The run of the program, filmed. -/
def filmRun (i : Interpreter ω) (n : Nat) (μ : Monitors ω) (film : List Scene) :
    Ending (Monitors (ω × List Scene)) Unit :=
  let env := (i.aside Scene).setting
  env.runWith (env.filming n) i.program.script (i.reel μ film)

/-- The call of a global function, filmed. -/
def filmCall (i : Interpreter ω) (n : Nat) (μ : Monitors ω) (name : String)
    (args : Edit (List Value)) (film : List Scene) : Ending (Monitors (ω × List Scene)) Value :=
  let env := (i.aside Scene).setting
  (do
    let vs ← Action.edit args
    env.callWith (env.filming n) name vs) (i.reel μ film)

theorem filmRun_plain (i : Interpreter ω) (n : Nat) (μ : Monitors ω) (film : List Scene) :
    (i.filmRun n μ film).plain =
      i.setting.runScript n i.program.script (i.machine.withMonitor μ) :=
  plain_runWith (alike_aside Scene i) (Setting.filming_alike (alike_aside Scene i) n)
    (i.reel_alike μ film)

theorem filmCall_plain (i : Interpreter ω) (n : Nat) (μ : Monitors ω) (name : String)
    (args : Edit (List Value)) (film : List Scene) :
    (i.filmCall n μ name args film).plain =
      (do let vs ← Action.edit args; i.setting.callGlobal n name vs) (i.machine.withMonitor μ) :=
  plain_callWith (alike_aside Scene i) (Setting.filming_alike (alike_aside Scene i) n)
    (i.reel_alike μ film) name args

/-- The interpreters that a host gets for a program, with the values that calls have given it and the
film of all that has happened. The host binds names to values, puts listeners in and takes them
out, lets the program run and calls global functions. -/
inductive Filmed (p : Program) (limits : Limits) :
    Interpreter ω → List Value → List Scene → Prop
  | new (clock : Clock) : Filmed p limits (new p limits clock) [] []
  | bind {i : Interpreter ω} {given : List Value} {film : List Scene} {gift : Gift}
      (name : String) : Filmed p limits i given film → gift.IsFrom i.machine.store given →
      Filmed p limits (i.bind name gift.make) given film
  | listen {i : Interpreter ω} {given : List Value} {film : List Scene}
      (listener : Option (Listener (Monitors ω))) :
      Filmed p limits i given film → Filmed p limits { i with listener } given film
  | run {i j : Interpreter ω} {given : List Value} {film : List Scene} {n : Nat}
      {μ ν : Monitors ω} {r : Except Failure Unit} :
      Filmed p limits i given film → i.run n μ = some (r, j, ν) →
      Filmed p limits j given (i.filmRun n μ film).machine.monitor.notes
  | call {i j : Interpreter ω} {given : List Value} {film : List Scene} {n : Nat}
      {μ ν : Monitors ω} {name : String} {args : List Gift} {r : Except Failure Value} :
      Filmed p limits i given film → (∀ gift ∈ args, gift.IsFrom i.machine.store given) →
      i.call n μ name (Gift.makeAll args) = some (r, j, ν) →
      Filmed p limits j (given ++ r.toOption.toList)
        (i.filmCall n μ name (Gift.makeAll args) film).machine.monitor.notes

theorem Filmed.reached {p : Program} {limits : Limits} {given : List Value} {film : List Scene}
    (h : Filmed p limits i given film) : Reached p limits i := by
  induction h with
  | new clock => exact .new clock
  | bind name _ _ ih => exact .bind name _ ih
  | listen listener _ ih => exact .listen listener ih
  | run _ ended ih => exact .run ih ended
  | call _ _ ended ih => exact .call ih ended

/-- What holds of the values given so far and of what a call has given holds of all given then. -/
theorem forall_given_of_result {given : List Value} {r : Except Failure Value} {P : Value → Prop}
    (old : ∀ v ∈ given, P v) (new : ∀ u, r = .ok u → P u) :
    ∀ v ∈ given ++ r.toOption.toList, P v := by
  intro v hv
  rcases List.mem_append.1 hv with hv | hv
  · exact old v hv
  · cases r with
    | error f => cases hv
    | ok u =>
      cases List.mem_singleton.1 hv
      exact new v rfl

/-- This is the case while the interpreter rests, and all through runs and calls that come next,
whether they end or not. -/
structure Upholds (i : Interpreter ω) (given : List Value) (film : List Scene)
    (P : List Scene → Store → Prop) : Prop where
  rest : P film i.machine.store
  run (n : Nat) (μ : Monitors ω) :
    (i.filmRun n μ film).plain =
      i.setting.runScript n i.program.script (i.machine.withMonitor μ) ∧
    Throughout P (i.filmRun n μ film).machine.monitor.notes
  call (n : Nat) (μ : Monitors ω) (name : String) {args : List Gift} :
    (∀ gift ∈ args, gift.IsFrom i.machine.store given) →
    (i.filmCall n μ name (Gift.makeAll args) film).plain =
      (do let vs ← Action.edit (Gift.makeAll args); i.setting.callGlobal n name vs)
        (i.machine.withMonitor μ) ∧
    Throughout P (i.filmCall n μ name (Gift.makeAll args) film).machine.monitor.notes

end Interpreter

end

end Footprint
