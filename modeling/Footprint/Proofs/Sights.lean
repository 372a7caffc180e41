import Footprint.Proofs.RegimeHistories
import Footprint.Proofs.TupleNumbers

set_option autoImplicit false

/-!
Values that a run meets. A note is taken of each value that an expression or a call has come to,
with the store at that moment; but for these notes the run stays the same. Whatever a host does with
a program, all values that are met agree with one ledger of tuples.
-/

namespace Footprint

/-- A value that an expression or a call has come to, and the store then. -/
structure Sight where
  value : Value
  store : Store

section

variable {ω α : Type}

/-- Takes a note of the value of a computation. -/
def Action.seen (x : Action (Monitors (ω × List Sight)) Value) :
    Action (Monitors (ω × List Sight)) Value := fun m =>
  match x m with
  | .done v m => .done v { m with monitor := m.monitor.addNote ⟨v, m.store⟩ }
  | .failed f m => .failed f m
  | .unfinished m => .unfinished m

/-- What answers requests that are nested at most so deep, with notes taken of the values. -/
def Setting.sighting (env : Setting (Monitors (ω × List Sight))) :
    Nat → Calls (Monitors (ω × List Sight))
  | 0 => ⟨fun _ => .unfinished, fun _ => .unfinished, fun _ => .unfinished⟩
  | n + 1 =>
    { value := fun t => .seen (env.evaluation (env.sighting n) t)
      place := placement (env.sighting n)
      run := env.execution (env.sighting n) }

/-- The host or the run has the value before it: it is stored, the host has been given it, it was
noted or was stored when another value was noted, or it is part of a tuple of which this is so. -/
inductive Met (store : Store) (given : List Value) (sights : List Sight) : Value → Prop
  | stored {v : Value} : store.Stores v → Met store given sights v
  | given {v : Value} : v ∈ given → Met store given sights v
  | seen {sight : Sight} : sight ∈ sights → Met store given sights sight.value
  | storedThen {sight : Sight} {v : Value} : sight ∈ sights → sight.store.Stores v →
      Met store given sights v
  | part {id : Nat} {vs : List Value} {v : Value} : Met store given sights (.tuple id vs) →
      v ∈ vs → Met store given sights v

/-! ### Runs with sights are the runs themselves -/

theorem Action.Alike.seen {x : Action (Monitors ω) Value}
    {y : Action (Monitors (ω × List Sight)) Value} (h : Alike (.noted ω Sight) x y) :
    Alike (.noted ω Sight) x (seen y) := by
  intro m m' hm
  unfold Action.seen
  rcases (h hm).cases with ⟨a, n, n', e, e', hn⟩ | ⟨f, n, n', e, e', hn⟩ | ⟨n, n', e, e', hn⟩ <;>
    simp only [e, e']
  · exact .done a { hn with monitor := hn.monitor }
  · exact .failed f hn
  · exact .unfinished hn

theorem Setting.sighting_alike {env : Setting (Monitors ω)}
    {env' : Setting (Monitors (ω × List Sight))} (h : env.Alike (.noted ω Sight) env') (n : Nat) :
    (Likeness.noted ω Sight).relation.Agree (env.calls n) (env'.sighting n) := by
  induction n with
  | zero => exact h.closed.unanswered fun c _ _ _ => (h.closed.steps c).unfinished
  | succ n ih =>
    constructor
    · exact fun known t => (h.closed.evaluation ih known t).seen
    · exact fun known t => h.closed.placement ih known t
    · exact fun known t allowed => h.closed.execution ih known h.encloses allowed
    · exact fun known b owned => h.closed.runBlock ih known (.of_final owned)

namespace Interpreter

/-- The run of the program, with notes taken of the values. -/
def sightRun (i : Interpreter ω) (n : Nat) (μ : Monitors ω) :
    Ending (Monitors (ω × List Sight)) Unit :=
  let env := (i.aside Sight).setting
  env.runWith (env.sighting n) i.program.script (i.unnoted μ)

/-- The call of a global function, with notes taken of the values. -/
def sightCall (i : Interpreter ω) (n : Nat) (μ : Monitors ω) (name : String)
    (args : Edit (List Value)) : Ending (Monitors (ω × List Sight)) Value :=
  let env := (i.aside Sight).setting
  (do
    let vs ← Action.edit args
    env.callWith (env.sighting n) name vs) (i.unnoted μ)

theorem sightRun_plain (i : Interpreter ω) (n : Nat) (μ : Monitors ω) :
    (i.sightRun n μ).plain =
      i.setting.runScript n i.program.script (i.machine.withMonitor μ) :=
  plain_runWith (alike_aside Sight i) (Setting.sighting_alike (alike_aside Sight i) n)
    (i.unnoted_alike μ)

theorem sightCall_plain (i : Interpreter ω) (n : Nat) (μ : Monitors ω) (name : String)
    (args : Edit (List Value)) :
    (i.sightCall n μ name args).plain =
      (do let vs ← Action.edit args; i.setting.callGlobal n name vs) (i.machine.withMonitor μ) :=
  plain_callWith (alike_aside Sight i) (Setting.sighting_alike (alike_aside Sight i) n)
    (i.unnoted_alike μ) name args

end Interpreter

/-! ### The regime of ledgers -/

namespace Ledger

variable {w w' : Ledger} {store : Store}

/-- The value agrees with the ledger, and so do those that were stored then. -/
structure Saw (w : Ledger) (sight : Sight) : Prop where
  value : w.Good sight.value
  stored {v : Value} : sight.store.Stores v → w.Good v

theorem Saw.mono {sight : Sight} (h : w.Saw sight) (later : w.Le w') : w'.Saw sight :=
  ⟨h.value.mono later, fun stored => (h.stored stored).mono later⟩

/-- The regime of a ledger that is kept beside the store, with which all that is noted agrees. -/
def regime (ω : Type) : Regime (Monitors (ω × List Sight)) where
  World := Ledger
  le := Le
  known _ := True
  holds w store μ := w.Sound store ∧ ∀ sight ∈ μ.notes, w.Saw sight
  value := Good
  closure w f := ∀ v ∈ f.defaults, w.Good v
  scope _ _ _ := True
  fresh _ _ _ := True
  frame _ _ _ := True

theorem saw_mono {notes : List Sight} (later : w.Le w') (saw : ∀ sight ∈ notes, w.Saw sight) :
    ∀ sight ∈ notes, w'.Saw sight := fun sight h => (saw sight h).mono later

theorem good_method {r : ListRef} {m : ListMethod} :
    w.Good (.method r m) ↔ w.Good (.list r) := ⟨fun _ => .other nofun, fun _ => .other nofun⟩

theorem kept (i : Interpreter ω) : (regime ω).Kept (i.aside Sight).setting where
  refl := Le.refl
  trans := Le.trans
  known_of_defines _ _ := trivial
  value_mono later good := good.mono later
  closure_mono later good := fun v hv => (good v hv).mono later
  scope_mono _ _ := trivial
  fresh_mono _ _ := trivial
  frame_mono _ _ := trivial
  fresh_of_frame _ := trivial
  frame_top _ _ := trivial
  hear := by
    intro w s μ f d e ⟨sound, saw⟩
    exact ⟨sound, (i.notes_hear_aside f d e μ).symm ▸ saw⟩
  plain w plain := .other fun id vs same => by rw [same] at plain; cases plain
  tuple good := good.parts
  method := good_method
  items := fun ⟨sound, _⟩ _ v hv => sound.items (Array.mem_toList_iff.1 hv)
  binding := fun ⟨sound, _⟩ h => sound.bound h
  newList := fun ⟨sound, saw⟩ good =>
    ⟨_, Le.refl _, ⟨sound.newList fun v hv => good v (Array.mem_toList_iff.2 hv), saw⟩,
      .other nofun⟩
  setItems := fun ⟨sound, saw⟩ _ good =>
    ⟨_, Le.refl _, sound.setItems fun v hv => good v (Array.mem_toList_iff.2 hv), saw⟩
  newTuple := fun ⟨sound, saw⟩ good =>
    have later := le_enter (sound.free (Nat.le_refl _)) _
    have made := sound.newTuple good
    ⟨_, later, ⟨made.1, saw_mono later saw⟩, made.2⟩
  newException kind message := fun ⟨sound, saw⟩ =>
    ⟨_, Le.refl _, ⟨sound.newException kind message, saw⟩, .other nofun⟩
  setAttribute := fun ⟨sound, saw⟩ _ good => ⟨_, Le.refl _, sound.set good, saw⟩
  eraseAttribute := fun ⟨sound, saw⟩ _ => ⟨_, Le.refl _, sound.erase _ _, saw⟩
  assign _ _ _ := fun ⟨sound, saw⟩ good _ => ⟨_, Le.refl _, sound.set good, saw⟩
  unassign _ _ _ := fun ⟨sound, saw⟩ _ => ⟨_, Le.refl _, sound.erase _ _, saw⟩
  found := fun ⟨sound, _⟩ h => sound.defaults h
  known_closure _ := trivial
  definitionScope _ _ _ := trivial
  defined _ _ _ good := good
  newFunction := fun ⟨sound, saw⟩ good =>
    ⟨_, Le.refl _, ⟨sound.newFunction good, saw⟩, .other nofun⟩
  callScope := fun ⟨sound, saw⟩ defaults args =>
    ⟨_, Le.refl _, ⟨sound.callScope fun _ hb =>
      (mem_boundArguments hb).2.elim (args _) (defaults _), saw⟩, trivial⟩
  classScope _ _ _ := fun ⟨sound, saw⟩ =>
    ⟨_, Le.refl _, ⟨sound.newScope _, saw⟩, trivial, fun _ => .other nofun⟩

theorem seen {c : Code} {x : Action (Monitors (ω × List Sight)) Value}
    (hx : (regime ω).Runs c w Good x) : (regime ω).Yields (regime ω).fresh c w Good (.seen x) := by
  intro w' later m ready
  have comes := hx later ready
  unfold Action.seen
  cases hr : x m with
  | done v n =>
    rw [hr] at comes
    obtain ⟨u, hu, ⟨⟨sound, saw⟩, returned, frame⟩, good⟩ := comes
    refine ⟨u, hu, ⟨⟨sound, fun sight hsight => ?_⟩, returned, frame⟩, good⟩
    rcases List.mem_append.1 hsight with old | new
    · exact saw sight old
    · obtain rfl := List.mem_singleton.1 new
      exact ⟨good, sound.stored⟩
  | failed f n | unfinished n =>
    rw [hr] at comes
    exact comes

theorem sighting_agrees (i : Interpreter ω) (n : Nat) :
    (regime ω).Agree ((i.aside Sight).setting.sighting n) := by
  have h := kept i
  induction n with
  | zero => exact ⟨fun _ _ => .unfinished h, fun _ _ => .unfinished h, fun _ _ _ => .unfinished h⟩
  | succ n ih =>
    constructor
    · exact fun known asks => seen (h.evaluation ih known asks)
    · exact fun known places => h.placement ih known places
    · exact fun known allowed goes => h.execution ih known allowed goes

/-! ### Histories -/

variable {p : Program} {limits : Limits} {i j : Interpreter ω} {μ ν : Monitors ω}
  {given : List Value} {film : List Scene}

/-- The ledger of an interpreter between the steps of a host. -/
structure Rests (w : Ledger) (i : Interpreter ω) (given : List Value) : Prop where
  sound : w.Sound i.machine.store
  given : ∀ v ∈ given, w.Good v
  stack : i.machine.stack = #[]
  returned : i.machine.returned = .none

theorem Rests.stable (rests : w.Rests i given) (μ : Monitors ω) :
    (regime ω).Stable w (i.unnoted μ) where
  holds := ⟨rests.sound, fun _ none => absurd none List.not_mem_nil⟩
  returned := by
    change w.Good i.machine.returned
    rw [rests.returned]
    exact .other nofun
  stands f hf := by
    rw [show (i.unnoted μ).stack = #[] from rests.stack] at hf
    exact absurd hf (Array.not_mem_empty f)

theorem Rests.good (rests : w.Rests i given) {v : Value}
    (h : (Gift.back v).IsFrom i.machine.store given) : w.Good v :=
  h.elim rests.sound.stored (rests.given v)

theorem Rests.sightRun (rests : w.Rests i given) (n : Nat) (μ : Monitors ω) :
    (regime ω).Concludes w (regime ω).any (i.unnoted μ) (i.sightRun n μ) :=
  (kept i).runWith_concludes (sighting_agrees i n) _ trivial (rests.stable μ)

theorem Rests.sightCall (rests : w.Rests i given) (n : Nat) (μ : Monitors ω) (name : String)
    {args : List Gift} (offered : ∀ gift ∈ args, gift.IsFrom i.machine.store given) :
    (regime ω).Concludes w Good (i.unnoted μ) (i.sightCall n μ name (Gift.makeAll args)) := by
  exact (kept i).callGifts_concludes (sighting_agrees i n) ⟨[]⟩ trivial (rests.stable μ) name
    fun v hv => rests.good (offered _ hv)

/-- What has come of a computation with sights when its counterpart without them has ended. -/
theorem Rests.of_act {P : Ledger → α → Prop} {x : Setting (Monitors ω) → Action (Monitors ω) α}
    {r : Except Failure α} {e : Ending (Monitors (ω × List Sight)) α} (rests : w.Rests i given)
    (ended : i.act μ x = some (r, j, ν)) (plain : e.plain = x i.setting (i.machine.withMonitor μ))
    (concludes : (regime ω).Concludes w P (i.unnoted μ) e) (idle : j.machine.Idle) :
    ∃ w' : Ledger, w'.Rests j given ∧ ∀ a, r = .ok a → P w' a := by
  obtain ⟨w', later, ⟨sound, -⟩, value, -⟩ := concludes.of_act ended plain
  exact ⟨w', ⟨sound, fun v hv => (rests.given v hv).mono later, idle.stack, idle.returned⟩, value⟩

theorem Rests.bind (rests : w.Rests i given) {gift : Gift}
    (offered : gift.IsFrom i.machine.store given) (name : String) :
    ∃ w' : Ledger, w'.Rests (i.bind name gift.make) given := by
  -- the state of no listener matters here
  obtain ⟨w', later, ⟨sound, -⟩, good⟩ :=
    (kept (.new i.program .default .steady : Interpreter Unit)).makeGift (μ := ⟨#[], ((), [])⟩)
      ⟨rests.sound, fun _ none => nomatch none⟩ fun v same => rests.good (same ▸ offered)
  exact ⟨w', sound.set good, fun v hv => (rests.given v hv).mono later, rests.stack,
    rests.returned⟩

/-- Between the steps of a host there is a ledger with which all agrees. -/
theorem exists_rests (h : Interpreter.Filmed p limits i given film) :
    ∃ w : Ledger, w.Rests i given := by
  induction h with
  | new clock => exact ⟨_, .initial, nofun, rfl, rfl⟩
  | bind name _ offered ih =>
    obtain ⟨w, rests⟩ := ih
    exact rests.bind offered name
  | listen listener _ ih =>
    obtain ⟨w, rests⟩ := ih
    exact ⟨w, rests.sound, rests.given, rests.stack, rests.returned⟩
  | @run i j given film n μ ν r filmed ended ih =>
    obtain ⟨w, rests⟩ := ih
    obtain ⟨w', rests', -⟩ := rests.of_act ended (i.sightRun_plain n μ) (rests.sightRun n μ)
      (Interpreter.idle_of_run filmed.reached.idle ended)
    exact ⟨w', rests'⟩
  | @call i j given film n μ ν name args r filmed offered ended ih =>
    obtain ⟨w, rests⟩ := ih
    obtain ⟨w', rests', good⟩ := rests.of_act ended (i.sightCall_plain n μ name _)
      (rests.sightCall n μ name offered) (Interpreter.idle_of_call filmed.reached.idle ended)
    exact ⟨w', { rests' with given := Interpreter.forall_given_of_result rests'.given good }⟩

/-- All that is met while a computation goes on agrees with one ledger. -/
theorem Rests.met {P : Ledger → α → Prop} {e : Ending (Monitors (ω × List Sight)) α}
    (rests : w.Rests i given) (concludes : (regime ω).Concludes w P (i.unnoted μ) e) :
    ∃ w' : Ledger, ∀ v, Met i.machine.store given e.machine.monitor.notes v → w'.Good v := by
  obtain ⟨w', later, -, saw⟩ := concludes.holds
  refine ⟨w', fun v met => ?_⟩
  induction met with
  | stored h => exact (rests.sound.stored h).mono later
  | given h => exact (rests.given _ h).mono later
  | seen h => exact (saw _ h).value
  | storedThen h stored => exact (saw _ h).stored stored
  | part _ h ih => exact ih.parts _ h

end Ledger

end

end Footprint
