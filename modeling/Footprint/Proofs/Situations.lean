import Footprint.Proofs.Scopes

set_option autoImplicit false

/-!
The situations that a host brings about: it asks interpreters to run, puts its listeners in place
and takes them out, and enters and leaves tracers, each inside the one before. While a tracer is
active, the listener from before it is put aside. No listener reaches a tracer that has been left.
-/

namespace Footprint

section

variable {ω : Type}

/-! ### What listeners do to tracers -/

/-- The tracer with more lines recorded. -/
def Tracer.extend (u : Tracer) (lines : Array LineHit) : Tracer := { u with log := u.log ++ lines }

theorem Tracer.extend_nil (u : Tracer) : u.extend #[] = u := by simp [extend]

theorem Tracer.extend_extend (u : Tracer) (lines more : Array LineHit) :
    (u.extend lines).extend more = u.extend (lines ++ more) := by simp [extend, Array.append_assoc]

theorem Tracer.hear_eq_extend (u : Tracer) (f : FrameInfo) (e : Event) :
    ∃ lines, u.hear f e = u.extend lines := by
  unfold hear
  split
  · exact ⟨#[⟨f.function, f.line⟩], rfl⟩
  · exact ⟨#[], u.extend_nil.symm⟩

/-- Tracers have recorded more lines, but only those that are reached, and nothing else has happened
to any of them. -/
def Monitors.Extends (reached : Nat → Prop) (μ ν : Monitors ω) : Prop :=
  ∀ t, ∃ lines, ν.tracers[t]? = (μ.tracers[t]?).map (·.extend lines) ∧ (reached t ∨ lines = #[])

namespace Monitors.Extends

variable {reached reached' : Nat → Prop} {μ ν ξ : Monitors ω}

theorem of_eq (h : ν.tracers = μ.tracers) : μ.Extends reached ν := by
  intro t
  have same : (Tracer.extend · #[]) = id := funext Tracer.extend_nil
  exact ⟨#[], by rw [h, same, Option.map_id, id], .inr rfl⟩

theorem trans (h : μ.Extends reached ν) (h' : ν.Extends reached ξ) : μ.Extends reached ξ := by
  intro t
  obtain ⟨lines, hν, reach⟩ := h t
  obtain ⟨more, hξ, reach'⟩ := h' t
  refine ⟨lines ++ more, ?_, ?_⟩
  · rw [hξ, hν, Option.map_map]
    congr 1
    funext u
    exact u.extend_extend lines more
  · rcases reach with yes | rfl
    · exact .inl yes
    · rcases reach' with yes | rfl
      · exact .inl yes
      · exact .inr rfl

theorem mono (h : μ.Extends reached ν) (weaker : ∀ t, reached t → reached' t) :
    μ.Extends reached' ν := by
  intro t
  obtain ⟨lines, hν, reach⟩ := h t
  exact ⟨lines, hν, reach.imp_left (weaker t)⟩

theorem hear (μ : Monitors ω) {t : Nat} (h : reached t) (f : FrameInfo) (e : Event) :
    μ.Extends reached ⟨μ.tracers.modify t (·.hear f e), μ.host⟩ := by
  intro k
  rw [Array.getElem?_modify]
  split
  · next same =>
    subst same
    cases μ.tracers[t]? with
    | none => exact ⟨#[], rfl, .inr rfl⟩
    | some u =>
      obtain ⟨lines, heard⟩ := u.hear_eq_extend f e
      exact ⟨lines, congrArg some heard, .inl h⟩
  · exact of_eq (ν := μ) rfl k

end Monitors.Extends

/-- Events that the listener hears make no tracer record lines but those that it reaches. -/
def Listener.Reaches (l : Listener (Monitors ω)) (reached : Nat → Prop) : Prop :=
  ∀ f e (μ : Monitors ω), μ.Extends reached (l.hear f e μ).2

/-- The listener of a host, which has to do with no tracer. -/
def Listener.ofHost (l : Listener ω) : Listener (Monitors ω) where
  hear frame e
    | ⟨tracers, host⟩ =>
      let (answer, host) := l.hear frame e host
      (answer, ⟨tracers, host⟩)

theorem Listener.ofHost_reaches (l : Listener ω) (reached : Nat → Prop) :
    l.ofHost.Reaches reached := fun _ _ _ => .of_eq rfl

theorem Listener.Reaches.mono {l : Listener (Monitors ω)} {reached reached' : Nat → Prop}
    (h : l.Reaches reached) (weaker : ∀ t, reached t → reached' t) : l.Reaches reached' :=
  fun f e μ => (h f e μ).mono weaker

/-- A tracer reaches itself and what the listener behind it reaches. -/
theorem tracerListener_reaches {t : Nat} {prior : Option (Listener (Monitors ω))}
    {reached : Nat → Prop} (self : reached t) (h : ∀ p ∈ prior, p.Reaches reached) :
    (tracerListener t prior).Reaches reached := by
  intro f e μ
  have heard : μ.Extends reached ⟨μ.tracers.modify t (·.hear f e), μ.host⟩ := .hear μ self f e
  cases prior with
  | none => exact heard
  | some p =>
    have told := heard.trans (h p rfl f e _)
    simp only [tracerListener]
    cases hp : p.hear f e ⟨μ.tracers.modify t (·.hear f e), μ.host⟩ with
    | mk answer ν =>
      rw [hp] at told
      cases answer with
      | ok c => exact told
      | error text => exact told

namespace Interpreter

variable {i j : Interpreter ω} {μ ν : Monitors ω} {n : Nat} {request : Request}

/-- What the listener of an interpreter keeps is kept by what is asked of it. -/
theorem serve_keeps {Q : Monitors ω → Prop}
    (heard : ∀ l ∈ i.listener, ∀ f e μ, Q μ → Q (l.hear f e μ).2) (start : Q μ)
    (served : i.serve n μ request = some (j, ν)) : Q ν := by
  have kept : Protocol.KeptByHearing i.setting (fun _ => True) (fun _ _ => True) Q := by
    intro f hs d e s _ _ hQ
    unfold Setting.hear setting
    cases hl : i.listener with
    | none => exact hQ
    | some l =>
      dsimp only
      split
      · exact heard l hl _ _ _ hQ
      · exact hQ
  have admits : (Protocol.preserving (fun _ => True) (fun _ _ => True) Q).Admits i.setting :=
    Protocol.preserving_admits (fun _ _ => trivial) (fun _ _ => trivial) kept
  have calls := Protocol.calls admits (Protocol.preserving_exceptions kept) (fun _ _ => trivial) n
  cases request with
  | bind name make =>
    cases served
    exact start
  | run =>
    obtain ⟨⟨r, j, ν⟩, ended, same⟩ := Option.map_eq_some_iff.1 served
    cases same
    have run := (Protocol.runWith_concludes (m := i.machine.withMonitor μ) admits calls
      i.program.script trivial trivial fun _ _ _ => trivial).preserved start
    obtain ⟨m, told, -, rfl⟩ := ends_of_act ended
      (Ending.ends_of_machine (P := fun m => Q m.monitor) run)
    exact told
  | call name args =>
    obtain ⟨⟨r, j, ν⟩, ended, same⟩ := Option.map_eq_some_iff.1 served
    cases same
    have call := (Protocol.callGlobal_concludes
      (m := { i.machine.withMonitor μ with store := (args i.machine.store).2 }) admits calls
      i.program.script trivial trivial (fun _ _ _ => trivial) name
      (args i.machine.store).1).preserved start
    obtain ⟨m, told, -, rfl⟩ := ends_of_act ended
      (Ending.ends_of_machine (P := fun m => Q m.monitor) call)
    exact told

theorem serve_extends {reached : Nat → Prop} (h : ∀ l ∈ i.listener, l.Reaches reached)
    (served : i.serve n μ request = some (j, ν)) : μ.Extends reached ν :=
  serve_keeps (Q := μ.Extends reached) (fun l hl f e _ extended => extended.trans (h l hl f e _))
    (.of_eq rfl) served

end Interpreter

/-! ### Situations of a session -/

/-- A tracer that has been entered on an interpreter and has not been left. -/
structure TracerScope where
  interpreter : Nat
  tracer : Nat

/-- What there is at a moment of a session: the interpreters, the tracers and what is the host's
own, and which tracers have been entered and not left. -/
structure Situation (ω : Type) where
  interpreters : Array (Interpreter ω)
  monitors : Monitors ω
  /-- The scopes that are open, the innermost first. -/
  scopes : List TracerScope
  /-- The listener that has been put aside for each tracer. -/
  aside : Nat → Option (Listener (Monitors ω))

/-- What a host may do next. -/
inductive Move (ω : Type) where
  /-- Asks an interpreter for something that takes at most so many steps. -/
  | ask (steps interpreter : Nat) (request : Interpreter.Request)
  | install (interpreter : Nat) (l : Listener ω)
  | uninstall (interpreter : Nat)
  /-- Changes what is the host's own. -/
  | host (change : ω → ω)
  | exclude (tracer : Nat) (code : CodeId)
  | enter (interpreter tracer : Nat)
  /-- Leaves the innermost scope. -/
  | leave

namespace Situation

/-- Nothing has happened yet: the tracers are idle, and nobody listens. -/
structure Fresh (m : Situation ω) : Prop where
  silent : ∀ i ∈ m.interpreters, i.listener = none
  idle : ∀ u ∈ m.monitors.tracers, u.phase = .idle
  scopes : m.scopes = []

/-- Puts a listener in the place of another one, or takes it out. -/
def listen (m : Situation ω) (i : Nat) (listener : Option (Listener (Monitors ω))) : Situation ω :=
  { m with interpreters := m.interpreters.modify i ({ · with listener }) }

def put (m : Situation ω) (i : Nat) (r : Interpreter ω × Monitors ω) : Situation ω :=
  { m with interpreters := m.interpreters.setIfInBounds i r.1, monitors := r.2 }

/-- Puts a listener aside for a tracer. -/
def putAside (m : Situation ω) (t : Nat) (listener : Option (Listener (Monitors ω))) (k : Nat) :
    Option (Listener (Monitors ω)) := if k = t then listener else m.aside k

/-- Enters a tracer on an interpreter, if there are such: it takes the place of the listener, which
is put aside. -/
def enter (m : Situation ω) (i t : Nat) : Except TracerError (Situation ω) :=
  match m.interpreters[i]?, m.monitors.tracers[t]? with
  | some interpreter, some u => do
    let u ← u.enter
    return {
      interpreters := m.interpreters.setIfInBounds i (interpreter.enter t)
      monitors := ⟨m.monitors.tracers.setIfInBounds t u, m.monitors.host⟩
      scopes := ⟨i, t⟩ :: m.scopes
      aside := m.putAside t interpreter.listener }
  | _, _ => return m

/-- Leaves the innermost scope: whatever listens there is taken out, and what has been put aside for
the tracer is put in its place. -/
def leave (m : Situation ω) : Situation ω :=
  match m.scopes with
  | [] => m
  | ⟨i, t⟩ :: scopes =>
    { interpreters := m.interpreters.modify i (·.leave (m.aside t))
      monitors := ⟨m.monitors.tracers.modify t (·.leave), m.monitors.host⟩
      scopes
      aside := m.putAside t none }

/-- The situation after a move. There is none if what is asked does not end. -/
def after (m : Situation ω) : Move ω → Option (Situation ω)
  | .ask n i request =>
    match m.interpreters[i]? with
    | some interpreter => (interpreter.serve n m.monitors request).map (m.put i)
    | none => some m
  | .install i l => some (m.listen i (some l.ofHost))
  | .uninstall i => some (m.listen i none)
  | .host change => some { m with monitors.host := change m.monitors.host }
  | .exclude t code =>
    some { m with monitors.tracers := m.monitors.tracers.modify t (·.exclude code) }
  | .enter i t =>
    match m.enter i t with
    | .ok m' => some m'
    | .error _ => some m
  | .leave => some m.leave

def afterAll (m : Situation ω) : List (Move ω) → Option (Situation ω)
  | [] => some m
  | move :: moves => do (← m.after move).afterAll moves

theorem afterAll_append (m : Situation ω) (moves more : List (Move ω)) :
    m.afterAll (moves ++ more) = (m.afterAll moves).bind (·.afterAll more) := by
  induction moves generalizing m with
  | nil => rfl
  | cons move moves ih =>
    change ((m.after move).bind _) = ((m.after move).bind _).bind _
    rw [Option.bind_assoc]
    congr 1
    funext m'
    exact ih m'

/-! ### Whose listeners there are -/

/-- The listener of an interpreter reaches only tracers that have been entered on it. -/
def Confined (scopes : List TracerScope) (i : Nat) (listener : Option (Listener (Monitors ω))) :
    Prop :=
  ∀ l ∈ listener, l.Reaches (⟨i, ·⟩ ∈ scopes)

/-- A tracer is active as long as its scope is open; a listener reaches only tracers that have been
entered on its interpreter, and one that has been put aside only those that were entered before. -/
structure Tidy (m : Situation ω) : Prop where
  distinct : (m.scopes.map TracerScope.tracer).Nodup
  active (t : Nat) : t ∈ m.scopes.map TracerScope.tracer ↔
    ∃ u, m.monitors.tracers[t]? = some u ∧ u.phase = .active
  listeners {i : Nat} {interpreter : Interpreter ω} : m.interpreters[i]? = some interpreter →
    Confined m.scopes i interpreter.listener
  aside (above below : List TracerScope) (s : TracerScope) : m.scopes = above ++ s :: below →
    Confined below s.interpreter (m.aside s.tracer)

variable {m m' : Situation ω}

theorem Fresh.tidy (h : m.Fresh) : m.Tidy where
  distinct := by rw [h.scopes]; exact .nil
  active t := by
    rw [h.scopes]
    refine ⟨nofun, ?_⟩
    rintro ⟨u, hu, active⟩
    have idle := h.idle u (Array.mem_of_getElem? hu)
    rw [idle] at active
    cases active
  listeners hi l hl := by
    rw [h.silent _ (Array.mem_of_getElem? hi)] at hl
    cases hl
  aside above below s hs := by
    rw [h.scopes] at hs
    simp at hs

namespace Tidy

/-- It is enough to look at phases and listeners as long as no tracer is entered or left. -/
theorem of_still (h : m.Tidy) (scopes : m'.scopes = m.scopes) (aside : m'.aside = m.aside)
    (phases : ∀ t : Nat, m'.monitors.tracers[t]?.map Tracer.phase =
      m.monitors.tracers[t]?.map Tracer.phase)
    (listeners : ∀ {i : Nat} {interpreter : Interpreter ω},
      m'.interpreters[i]? = some interpreter → Confined m.scopes i interpreter.listener) :
    m'.Tidy where
  distinct := scopes ▸ h.distinct
  active t := by
    have phase (tracers : Array Tracer) :
        (∃ u, tracers[t]? = some u ∧ u.phase = .active) ↔
          tracers[t]?.map Tracer.phase = some .active := by
      rw [Option.map_eq_some_iff]
    rw [scopes, h.active t, phase, phase, phases t]
  listeners hi := by
    rw [scopes]
    exact listeners hi
  aside above below s hs := by
    rw [aside]
    exact h.aside _ _ _ (scopes ▸ hs)

theorem listen (h : m.Tidy) (i : Nat) {listener : Option (Listener (Monitors ω))}
    (confined : Confined m.scopes i listener) : (m.listen i listener).Tidy := by
  refine h.of_still rfl rfl (fun _ => rfl) fun {k interpreter} hk => ?_
  dsimp only [Situation.listen] at hk
  rw [Array.getElem?_modify] at hk
  split at hk
  · next same =>
    subst same
    obtain ⟨old, -, rfl⟩ := Option.map_eq_some_iff.1 hk
    exact confined
  · exact h.listeners hk

theorem put (h : m.Tidy) {i n : Nat} {interpreter j : Interpreter ω} {ν : Monitors ω}
    {request : Interpreter.Request} (hi : m.interpreters[i]? = some interpreter)
    (served : interpreter.serve n m.monitors request = some (j, ν)) : (m.put i (j, ν)).Tidy := by
  refine h.of_still rfl rfl (fun t => ?_) fun {k other} hk => ?_
  · obtain ⟨lines, extended, -⟩ := Interpreter.serve_extends (h.listeners hi) served t
    dsimp only [Situation.put]
    rw [extended, Option.map_map]
    rfl
  · dsimp only [Situation.put] at hk
    rw [Array.getElem?_setIfInBounds] at hk
    split at hk
    · next same =>
      subst same
      obtain rfl : j = other := by
        split at hk
        · exact Option.some.inj hk
        · cases hk
      rw [Interpreter.listener_serve served]
      exact h.listeners hi
    · exact h.listeners hk

/-- The tracers of open scopes are not idle. -/
theorem not_mem_of_idle (h : m.Tidy) {t : Nat} {u : Tracer} (hu : m.monitors.tracers[t]? = some u)
    (idle : u.phase = .idle) : t ∉ m.scopes.map TracerScope.tracer := by
  intro hmem
  obtain ⟨u', hu', active⟩ := (h.active t).1 hmem
  obtain rfl : u = u' := Option.some.inj (hu.symm.trans hu')
  rw [idle] at active
  cases active

end Tidy

/-- The situation after an idle tracer has been entered. -/
def entered (m : Situation ω) (i t : Nat) (interpreter : Interpreter ω) (u : Tracer) :
    Situation ω where
  interpreters := m.interpreters.setIfInBounds i (interpreter.enter t)
  monitors := ⟨m.monitors.tracers.setIfInBounds t { u with phase := .active }, m.monitors.host⟩
  scopes := ⟨i, t⟩ :: m.scopes
  aside := m.putAside t interpreter.listener

section

variable {i t : Nat} {interpreter : Interpreter ω} {u : Tracer}
  (hi : m.interpreters[i]? = some interpreter) (hu : m.monitors.tracers[t]? = some u)

include hi hu

theorem enter_idle (idle : u.phase = .idle) : m.enter i t = .ok (m.entered i t interpreter u) := by
  simp only [enter, hi, hu, Tracer.enter_eq_ok idle]
  rfl

theorem enter_refused {e : TracerError} (refused : u.enter = .error e) :
    m.enter i t = .error e := by
  simp only [enter, hi, hu, refused]
  rfl

theorem after_enter_idle (idle : u.phase = .idle) :
    m.after (.enter i t) = some (m.entered i t interpreter u) := by
  rw [after, enter_idle hi hu idle]

theorem after_enter_refused {e : TracerError} (refused : u.enter = .error e) :
    m.after (.enter i t) = some m := by
  rw [after, enter_refused hi hu refused]

theorem Tidy.entered (h : m.Tidy) (idle : u.phase = .idle) :
    (m.entered i t interpreter u).Tidy where
  distinct := List.nodup_cons.2 ⟨h.not_mem_of_idle hu idle, h.distinct⟩
  active k := by
    dsimp only [Situation.entered]
    rw [List.map_cons, List.mem_cons, Array.getElem?_setIfInBounds]
    by_cases same : t = k
    · subst same
      have bound : t < m.monitors.tracers.size := (Array.getElem?_eq_some_iff.1 hu).1
      simp [bound]
    · rw [if_neg same, h.active k]
      simp [Ne.symm same]
  listeners {k other} hk := by
    have old {l : Listener (Monitors ω)} (reaches : l.Reaches (⟨k, ·⟩ ∈ m.scopes)) :
        l.Reaches (⟨k, ·⟩ ∈ ⟨i, t⟩ :: m.scopes) :=
      reaches.mono fun t' ht' => List.mem_cons_of_mem _ ht'
    dsimp only [Situation.entered] at hk
    rw [Array.getElem?_setIfInBounds] at hk
    split at hk
    · next same =>
      subst same
      split at hk
      · cases hk
        intro l hl
        cases hl
        exact tracerListener_reaches List.mem_cons_self fun p hp => old (h.listeners hi p hp)
      · cases hk
    · exact fun l hl => old (h.listeners hk l hl)
  aside above below s hs := by
    dsimp only [Situation.entered] at hs ⊢
    unfold putAside
    cases above with
    | nil =>
      obtain ⟨rfl, rfl⟩ := List.cons.inj hs
      rw [if_pos rfl]
      exact h.listeners hi
    | cons first above =>
      have inner : m.scopes = above ++ s :: below := (List.cons.inj hs).2
      have inside : s.tracer ∈ m.scopes.map TracerScope.tracer := by
        rw [inner]
        simp
      have apart : s.tracer ≠ t := fun same => h.not_mem_of_idle hu idle (same ▸ inside)
      rw [if_neg apart]
      exact h.aside _ _ _ inner

end

/-- Entering a tracer changes nothing unless there is an idle one. -/
theorem after_enter (m : Situation ω) (i t : Nat) : m.after (.enter i t) = some m ∨
    ∃ interpreter u, m.interpreters[i]? = some interpreter ∧ m.monitors.tracers[t]? = some u ∧
      u.phase = .idle ∧ m.after (.enter i t) = some (m.entered i t interpreter u) := by
  cases hi : m.interpreters[i]? with
  | none =>
    refine .inl ?_
    simp only [after, enter, hi]
    rfl
  | some interpreter =>
    cases hu : m.monitors.tracers[t]? with
    | none =>
      refine .inl ?_
      simp only [after, enter, hi, hu]
      rfl
    | some u =>
      cases phase : u.phase with
      | idle => exact .inr ⟨interpreter, u, rfl, rfl, phase, after_enter_idle hi hu phase⟩
      | active => exact .inl (after_enter_refused hi hu (by rw [Tracer.enter, phase]))
      | finished => exact .inl (after_enter_refused hi hu (by rw [Tracer.enter, phase]))

/-- The situation after the innermost scope has been left. -/
theorem Tidy.leave (h : m.Tidy) : m.leave.Tidy := by
  unfold Situation.leave
  split
  · exact h
  next i t scopes hscopes =>
    have distinct := h.distinct
    rw [hscopes, List.map_cons, List.nodup_cons] at distinct
    obtain ⟨fresh, distinct⟩ := distinct
    refine ⟨distinct, fun k => ?active, fun {k interpreter} hk => ?listeners,
      fun {above below s} hs => ?aside⟩
    case active =>
      have before := h.active k
      rw [hscopes, List.map_cons, List.mem_cons] at before
      dsimp only
      rw [Array.getElem?_modify]
      by_cases same : t = k
      · subst same
        rw [if_pos rfl]
        refine ⟨fun hk => absurd hk fresh, ?_⟩
        rintro ⟨u, hu, active⟩
        obtain ⟨u, -, rfl⟩ := Option.map_eq_some_iff.1 hu
        cases active
      · rw [if_neg same, ← before]
        exact ⟨.inr, fun hk => hk.resolve_left (Ne.symm same)⟩
    case listeners =>
      dsimp only at hk
      rw [Array.getElem?_modify] at hk
      split at hk
      · next same =>
        subst same
        obtain ⟨old, -, rfl⟩ := Option.map_eq_some_iff.1 hk
        exact h.aside [] _ _ hscopes
      · next other =>
        intro l hl
        refine (h.listeners hk l hl).mono fun t' ht' => ?_
        rw [hscopes, List.mem_cons] at ht'
        refine ht'.resolve_left fun same => other ?_
        exact (congrArg TracerScope.interpreter same).symm
    case aside =>
      dsimp only at hs ⊢
      have apart : s.tracer ≠ t := by
        rintro rfl
        apply fresh
        rw [hs]
        simp
      unfold putAside
      rw [if_neg apart]
      exact h.aside (⟨i, t⟩ :: above) _ _ (by rw [hscopes, hs]; rfl)

/-- Every move leaves things tidy. -/
theorem Tidy.after (h : m.Tidy) {move : Move ω} (moved : m.after move = some m') : m'.Tidy := by
  cases move with
  | ask n i request =>
    dsimp only [Situation.after] at moved
    split at moved
    · next interpreter hi =>
      obtain ⟨⟨j, ν⟩, served, rfl⟩ := Option.map_eq_some_iff.1 moved
      exact h.put hi served
    · cases moved
      exact h
  | install i l =>
    cases moved
    apply h.listen
    rintro _ ⟨⟩
    exact l.ofHost_reaches _
  | uninstall i =>
    cases moved
    exact h.listen i nofun
  | host change =>
    cases moved
    exact h.of_still rfl rfl (fun _ => rfl) h.listeners
  | exclude t code =>
    cases moved
    refine h.of_still rfl rfl (fun k => ?_) h.listeners
    dsimp only
    rw [Array.getElem?_modify]
    split
    · rw [Option.map_map]
      rfl
    · rfl
  | enter i t =>
    rcases m.after_enter i t with same | ⟨interpreter, u, hi, hu, idle, entered⟩
    · rw [same] at moved
      cases moved
      exact h
    · rw [entered] at moved
      cases moved
      exact h.entered hi hu idle
  | leave =>
    cases moved
    exact h.leave

theorem Tidy.afterAll (h : m.Tidy) {moves : List (Move ω)} (moved : m.afterAll moves = some m') :
    m'.Tidy := by
  induction moves generalizing m with
  | nil =>
    cases moved
    exact h
  | cons move moves ih =>
    obtain ⟨next, first, rest⟩ := Option.bind_eq_some_iff.1 moved
    exact ih (h.after first) rest

end Situation

end

end Footprint
