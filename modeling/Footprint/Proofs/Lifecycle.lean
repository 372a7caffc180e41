import Footprint.Proofs.Situations

set_option autoImplicit false

/-!
The lives of tracers in a session. Leaving a tracer brings back the listener from before it was
entered, whatever has happened to the place of the listener meanwhile, and a tracer records lines
only while it is active. The steps of a session lead from situation to situation.
-/

namespace Footprint

section

variable {ω : Type}

/-! ### The lives of tracers -/

/-- What may happen to a tracer at once: its phase goes on by one at most, and it records lines only
while it is active. -/
structure Tracer.Advances (u u' : Tracer) : Prop where
  phase : u'.phase = u.phase ∨ u.phase = .idle ∧ u'.phase = .active ∨
    u.phase = .active ∧ u'.phase = .finished
  log : ∃ lines, u'.log = u.log ++ lines ∧ (lines = #[] ∨ u.phase = .active ∧ u'.phase = .active)

theorem Tracer.Advances.of_log {u u' : Tracer} (phase : u'.phase = u.phase ∨
    u.phase = .idle ∧ u'.phase = .active ∨ u.phase = .active ∧ u'.phase = .finished)
    (log : u'.log = u.log) : u.Advances u' := ⟨phase, #[], by simp [log], .inl rfl⟩

theorem Tracer.Advances.frozen {u u' : Tracer} (h : u.Advances u')
    (finished : u.phase = .finished) : u'.phase = .finished ∧ u'.log = u.log := by
  obtain ⟨lines, log, recorded⟩ := h.log
  constructor
  · rcases h.phase with same | ⟨other, -⟩ | ⟨other, -⟩
    · exact same.trans finished
    · rw [finished] at other
      cases other
    · rw [finished] at other
      cases other
  · rcases recorded with rfl | ⟨other, -⟩
    · rw [log, Array.append_empty]
    · rw [finished] at other
      cases other

namespace Situation

section

variable {m m' : Situation ω} {move : Move ω}

/-- What a move comes to: a tracer has been entered, the innermost scope has been left, or the
scopes are as they were. -/
theorem after_cases (moved : m.after move = some m') :
    (m'.scopes = m.scopes ∧ m'.aside = m.aside ∧ m'.interpreters.size = m.interpreters.size) ∨
    (∃ i t interpreter u, m.interpreters[i]? = some interpreter ∧
      m.monitors.tracers[t]? = some u ∧ u.phase = .idle ∧ m' = m.entered i t interpreter u) ∨
    m' = m.leave := by
  cases move with
  | ask n i request =>
    dsimp only [after] at moved
    split at moved
    · obtain ⟨r, -, rfl⟩ := Option.map_eq_some_iff.1 moved
      exact .inl ⟨rfl, rfl, Array.size_setIfInBounds⟩
    · cases moved
      exact .inl ⟨rfl, rfl, rfl⟩
  | install i l | uninstall i =>
    cases moved
    exact .inl ⟨rfl, rfl, Array.size_modify⟩
  | host change | exclude t code =>
    cases moved
    exact .inl ⟨rfl, rfl, rfl⟩
  | enter i t =>
    rcases m.after_enter i t with same | ⟨interpreter, u, hi, hu, idle, entered⟩
    · rw [same] at moved
      cases moved
      exact .inl ⟨rfl, rfl, rfl⟩
    · rw [entered] at moved
      cases moved
      exact .inr (.inl ⟨i, t, interpreter, u, hi, hu, idle, rfl⟩)
  | leave =>
    cases moved
    exact .inr (.inr rfl)

theorem Tidy.advances (h : m.Tidy) (moved : m.after move = some m') {t : Nat} {u : Tracer}
    (hu : m.monitors.tracers[t]? = some u) :
    ∃ u', m'.monitors.tracers[t]? = some u' ∧ u.Advances u' := by
  have still : u.Advances u := .of_log (.inl rfl) rfl
  cases move with
  | ask n i request =>
    dsimp only [Situation.after] at moved
    split at moved
    · next interpreter hi =>
      obtain ⟨⟨j, ν⟩, served, rfl⟩ := Option.map_eq_some_iff.1 moved
      obtain ⟨lines, extended, reached⟩ :=
        Interpreter.serve_extends (h.listeners hi) served t
      refine ⟨u.extend lines, by rw [Situation.put, extended, hu]; rfl, .inl rfl, lines, rfl, ?_⟩
      rcases reached with inside | rfl
      · obtain ⟨u', hu', active⟩ := (h.active t).1 (List.mem_map_of_mem inside)
        obtain rfl : u = u' := Option.some.inj (hu.symm.trans hu')
        exact .inr ⟨active, active⟩
      · exact .inl rfl
    · cases moved
      exact ⟨u, hu, still⟩
  | install i l | uninstall i | host change =>
    cases moved
    exact ⟨u, hu, still⟩
  | exclude k code =>
    cases moved
    rw [Array.getElem?_modify, hu]
    split
    · exact ⟨_, rfl, .of_log (.inl rfl) rfl⟩
    · exact ⟨u, rfl, still⟩
  | enter i k =>
    rcases m.after_enter i k with same | ⟨interpreter, u', hi, hu', idle, entered⟩
    · rw [same] at moved
      cases moved
      exact ⟨u, hu, still⟩
    · rw [entered] at moved
      cases moved
      dsimp only [Situation.entered]
      rw [Array.getElem?_setIfInBounds]
      by_cases same : k = t
      · subst same
        obtain rfl : u = u' := Option.some.inj (hu.symm.trans hu')
        rw [if_pos rfl, if_pos (Array.getElem?_eq_some_iff.1 hu).1]
        exact ⟨_, rfl, .of_log (.inr (.inl ⟨idle, rfl⟩)) rfl⟩
      · rw [if_neg same]
        exact ⟨u, hu, still⟩
  | leave =>
    cases moved
    unfold Situation.leave
    split
    · exact ⟨u, hu, still⟩
    · next i k scopes hscopes =>
      dsimp only
      rw [Array.getElem?_modify, hu]
      split
      · next same =>
        subst same
        obtain ⟨u', hu', active⟩ := (h.active k).1 (by rw [hscopes]; exact List.mem_cons_self)
        obtain rfl : u = u' := Option.some.inj (hu.symm.trans hu')
        exact ⟨_, rfl, .of_log (.inr (.inr ⟨active, rfl⟩)) rfl⟩
      · exact ⟨u, rfl, still⟩

/-- A tracer that has finished stays as it is, but for what it excludes. -/
theorem Tidy.frozen (h : m.Tidy) {moves : List (Move ω)} (moved : m.afterAll moves = some m')
    {t : Nat} {u : Tracer} (hu : m.monitors.tracers[t]? = some u) (finished : u.phase = .finished) :
    ∃ u', m'.monitors.tracers[t]? = some u' ∧ u'.phase = .finished ∧ u'.log = u.log := by
  induction moves generalizing m u with
  | nil =>
    cases moved
    exact ⟨u, hu, finished, rfl⟩
  | cons move moves ih =>
    obtain ⟨next, first, rest⟩ := Option.bind_eq_some_iff.1 moved
    obtain ⟨v, hv, advances⟩ := h.advances first hu
    obtain ⟨finished', log⟩ := advances.frozen finished
    obtain ⟨u', hu', finished'', log'⟩ := ih (h.after first) rest hv finished'
    exact ⟨u', hu', finished'', log'.trans log⟩

/-! ### Leaving a scope -/

variable {above below : List TracerScope} {s : TracerScope}

/-- A scope stays open, with the scopes below it and with what has been put aside for it, or its
tracer has finished. -/
theorem Tidy.open_or_finished (h : m.Tidy) (hs : m.scopes = above ++ s :: below)
    (moved : m.after move = some m') :
    (∃ above', m'.scopes = above' ++ s :: below ∧ m'.aside s.tracer = m.aside s.tracer) ∨
    ∃ u, m'.monitors.tracers[s.tracer]? = some u ∧ u.phase = .finished := by
  have inside : s.tracer ∈ m.scopes.map TracerScope.tracer := by
    rw [hs]
    simp
  rcases after_cases moved with ⟨scopes, aside, -⟩ | ⟨i, t, interpreter, u, -, hu, idle, rfl⟩ | rfl
  · exact .inl ⟨above, scopes.trans hs, by rw [aside]⟩
  · have apart : s.tracer ≠ t := fun same => h.not_mem_of_idle hu idle (same ▸ inside)
    refine .inl ⟨⟨i, t⟩ :: above, by rw [Situation.entered, hs]; rfl, ?_⟩
    dsimp only [Situation.entered, putAside]
    rw [if_neg apart]
  · cases above with
    | nil =>
      obtain ⟨u, hu, -⟩ := (h.active _).1 inside
      refine .inr ⟨u.leave, ?_, rfl⟩
      unfold Situation.leave
      rw [hs]
      dsimp only [List.nil_append]
      rw [Array.getElem?_modify, if_pos rfl, hu]
      rfl
    | cons first above =>
      have distinct := h.distinct
      rw [hs, List.cons_append, List.map_cons, List.nodup_cons] at distinct
      have apart : s.tracer ≠ first.tracer := by
        intro same
        apply distinct.1
        rw [← same]
        simp
      refine .inl ⟨above, ?_, ?_⟩
      · unfold Situation.leave
        rw [hs]
        rfl
      · unfold Situation.leave
        rw [hs]
        dsimp only [List.cons_append, putAside]
        rw [if_neg apart]

theorem Tidy.open_of_active (h : m.Tidy) (hs : m.scopes = above ++ s :: below)
    {moves : List (Move ω)} (moved : m.afterAll moves = some m')
    (active : s.tracer ∈ m'.scopes.map TracerScope.tracer) :
    ∃ above', m'.scopes = above' ++ s :: below ∧ m'.aside s.tracer = m.aside s.tracer := by
  induction moves generalizing m above with
  | nil =>
    cases moved
    exact ⟨above, hs, rfl⟩
  | cons move moves ih =>
    obtain ⟨next, first, rest⟩ := Option.bind_eq_some_iff.1 moved
    have tidy := h.after first
    rcases h.open_or_finished hs first with ⟨above', hs', aside⟩ | ⟨u, hu, finished⟩
    · obtain ⟨above'', hs'', aside'⟩ := ih tidy hs' rest
      exact ⟨above'', hs'', aside'.trans aside⟩
    · obtain ⟨u', hu', finished', -⟩ := tidy.frozen rest hu finished
      obtain ⟨v, hv, active⟩ := ((tidy.afterAll rest).active _).1 active
      obtain rfl : u' = v := Option.some.inj (hu'.symm.trans hv)
      rw [finished'] at active
      cases active

/-- Leaving the scope of a tracer brings back the listener from before it was entered. -/
theorem Tidy.listener_back (h : m.Tidy) {i t : Nat} {interpreter : Interpreter ω} {u : Tracer}
    (hi : m.interpreters[i]? = some interpreter) (hu : m.monitors.tracers[t]? = some u)
    (idle : u.phase = .idle) {moves : List (Move ω)}
    (moved : (m.entered i t interpreter u).afterAll moves = some m')
    (innermost : m'.scopes.head?.map TracerScope.tracer = some t) :
    m'.scopes = ⟨i, t⟩ :: m.scopes ∧ m'.aside t = interpreter.listener := by
  obtain ⟨s, hs, same⟩ := Option.map_eq_some_iff.1 innermost
  obtain ⟨rest, scopes⟩ : ∃ rest, m'.scopes = s :: rest := List.head?_eq_some_iff.1 hs
  have entered := h.entered hi hu idle
  have active : t ∈ m'.scopes.map TracerScope.tracer := by
    rw [scopes, ← same]
    exact List.mem_cons_self
  have opened : (m.entered i t interpreter u).scopes = [] ++ ⟨i, t⟩ :: m.scopes := rfl
  obtain ⟨above, hs', aside⟩ := entered.open_of_active opened moved active
  have distinct := (entered.afterAll moved).distinct
  cases above with
  | nil =>
    refine ⟨hs', aside.trans ?_⟩
    dsimp only [Situation.entered, putAside]
    rw [if_pos rfl]
  | cons first above =>
    -- the tracer of the innermost scope would be that of one further out, too
    obtain rfl : s = first := by
      rw [hs'] at scopes
      exact (List.cons.inj scopes).1.symm
    rw [hs', List.cons_append, List.map_cons, List.nodup_cons, same] at distinct
    exact absurd (by simp) distinct.1

end

/-- There are always as many interpreters. -/
theorem size_after {m m' : Situation ω} {move : Move ω} (moved : m.after move = some m') :
    m'.interpreters.size = m.interpreters.size := by
  rcases after_cases moved with ⟨-, -, size⟩ | ⟨i, t, interpreter, u, -, -, -, rfl⟩ | rfl
  · exact size
  · exact Array.size_setIfInBounds
  · unfold leave
    split
    · rfl
    · exact Array.size_modify

theorem size_afterAll {m m' : Situation ω} {moves : List (Move ω)}
    (moved : m.afterAll moves = some m') : m'.interpreters.size = m.interpreters.size := by
  induction moves generalizing m with
  | nil =>
    cases moved
    rfl
  | cons move moves ih =>
    obtain ⟨next, first, rest⟩ := Option.bind_eq_some_iff.1 moved
    exact (ih rest).trans (size_after first)

/-- Moves lead from one situation to another. -/
def Leads (m m' : Situation ω) : Prop := ∃ moves, m.afterAll moves = some m'

namespace Leads

variable {m m' m'' : Situation ω}

theorem refl (m : Situation ω) : m.Leads m := ⟨[], rfl⟩

theorem one (move : Move ω) (h : m.after move = some m') : m.Leads m' :=
  ⟨[move], Option.bind_eq_some_iff.2 ⟨m', h, rfl⟩⟩

theorem trans (h : m.Leads m') (h' : m'.Leads m'') : m.Leads m'' := by
  obtain ⟨moves, h⟩ := h
  obtain ⟨more, h'⟩ := h'
  exact ⟨moves ++ more, by rw [afterAll_append, h, Option.bind_some, h']⟩

end Leads

end Situation

/-! ### Sessions -/

namespace Session

/-- The situation of a session in which some scopes are open. -/
def situation (s : Session) (scopes : List TracerScope)
    (aside : Nat → Option (Listener (Monitors Recorders))) : Situation Recorders :=
  ⟨s.interpreters, s.monitors, scopes, aside⟩

/-- The recorder at an index, as a listener of the host. -/
def recording (index : Nat) : Listener Recorders where
  hear frame e
    | ⟨all, current⟩ =>
      let answer :=
        match all[index]? with
        | some r => r.answer frame e
        | none => .ok .proceed
      (answer, ⟨all.modify index (·.record frame e), current⟩)

theorem fresh_start (programs : List (Program × Limits)) (tracers : Nat) :
    ((start programs tracers).situation [] fun _ => none).Fresh where
  silent i hi := by
    obtain ⟨p, -, rfl⟩ := List.mem_map.1 (List.mem_toArray.1 hi)
    rfl
  idle u hu := by
    obtain rfl := (Array.mem_replicate.1 hu).2
    rfl
  scopes := rfl

section

variable {s s' : Session} {scopes : List TracerScope}
  {aside : Nat → Option (Listener (Monitors Recorders))} {n : Nat} {r : Reply}

/-- What is asked of an interpreter is a move. -/
theorem leads_of_request {i : Nat} {interpreter : Interpreter Recorders}
    (hi : s.interpreters[i]? = some interpreter) (step : Step) {request : Interpreter.Request}
    (asked : request? i step = some request) (taken : take n step s = some (r, s')) :
    (s.situation scopes aside).Leads (s'.situation scopes aside) := by
  have served := take_request (n := n) hi asked
  rw [taken, Option.map_some] at served
  obtain ⟨⟨j, ν⟩, given, same⟩ := Option.map_eq_some_iff.1 served.symm
  obtain rfl : s.put i (j, ν) = s' := same
  apply Situation.Leads.one (.ask n i request)
  dsimp only [Situation.after, situation]
  rw [hi]
  dsimp only
  rw [given]
  rfl

theorem onInterpreter_cases {i : Nat} {f : Interpreter Recorders → Taken}
    (taken : s.onInterpreter i f = some (r, s')) :
    s' = s ∨
      ∃ interpreter, s.interpreters[i]? = some interpreter ∧ f interpreter = some (r, s') := by
  unfold onInterpreter at taken
  split at taken
  · next interpreter hi => exact .inr ⟨interpreter, hi, taken⟩
  · cases taken
    exact .inl rfl

theorem onTracer_cases {t : Nat} {f : Tracer → Taken} (taken : s.onTracer t f = some (r, s')) :
    s' = s ∨ ∃ u, s.monitors.tracers[t]? = some u ∧ f u = some (r, s') := by
  unfold onTracer at taken
  split at taken
  · next u hu => exact .inr ⟨u, hu, taken⟩
  · cases taken
    exact .inl rfl

/-- Another listener of the host, or none, is a move. -/
theorem listen_eq {i : Nat} {interpreter : Interpreter Recorders}
    (hi : s.interpreters[i]? = some interpreter)
    (listener : Option (Listener (Monitors Recorders))) :
    (s.situation scopes aside).listen i listener =
      (s.setInterpreter i { interpreter with listener }).situation scopes aside := by
  dsimp only [Situation.listen, situation, setInterpreter]
  rw [modify_eq_setIfInBounds hi]

/-- A scope is entered, moves are made in it, and it is left. -/
theorem leads_of_inside {i t : Nat} {interpreter : Interpreter Recorders} {u : Tracer}
    {last : Session} {aside' : Nat → Option (Listener (Monitors Recorders))}
    (tidy : (s.situation scopes aside).Tidy) (hi : s.interpreters[i]? = some interpreter)
    (hu : s.monitors.tracers[t]? = some u) (idle : u.phase = .idle)
    (inside : ((s.situation scopes aside).entered i t interpreter u).Leads
      (last.situation (⟨i, t⟩ :: scopes) aside')) :
    (s.situation scopes aside).Leads ((last.leave i t interpreter.listener).situation scopes
      ((last.situation (⟨i, t⟩ :: scopes) aside').putAside t none)) := by
  obtain ⟨moves, moved⟩ := inside
  obtain ⟨-, prior⟩ := tidy.listener_back hi hu idle moved rfl
  have prior : aside' t = interpreter.listener := prior
  have left : (last.situation (⟨i, t⟩ :: scopes) aside').after .leave =
      some ((last.leave i t interpreter.listener).situation scopes
        ((last.situation (⟨i, t⟩ :: scopes) aside').putAside t none)) := by
    dsimp only [Situation.after, Situation.leave, situation]
    rw [prior]
    rfl
  exact .trans (.one (.enter i t) (Situation.after_enter_idle hi hu idle))
    (.trans ⟨moves, moved⟩ (.one .leave left))

mutual

/-- A step of a session is taken by moves that leave the same scopes open as before. -/
theorem leads_of_take {s s' : Session} {scopes : List TracerScope}
    {aside : Nat → Option (Listener (Monitors Recorders))} {n : Nat} {r : Reply}
    (tidy : (s.situation scopes aside).Tidy) (step : Step) (taken : take n step s = some (r, s')) :
    ∃ aside', (s.situation scopes aside).Leads (s'.situation scopes aside') := by
  have still : ∃ aside', (s.situation scopes aside).Leads (s.situation scopes aside') :=
    ⟨aside, .refl _⟩
  have steps := taken
  unfold take at steps
  match step with
  | .bind i name value =>
    rcases onInterpreter_cases steps with rfl | ⟨interpreter, hi, -⟩
    · exact still
    · exact ⟨aside, leads_of_request hi (.bind i name value) (if_pos rfl) taken⟩
  | .run i =>
    rcases onInterpreter_cases steps with rfl | ⟨interpreter, hi, -⟩
    · exact still
    · exact ⟨aside, leads_of_request hi (.run i) (if_pos rfl) taken⟩
  | .call i name args =>
    rcases onInterpreter_cases steps with rfl | ⟨interpreter, hi, -⟩
    · exact still
    · exact ⟨aside, leads_of_request hi (.call i name args) (if_pos rfl) taken⟩
  | .global i name | .output i | .limits i | .isListening i | .registry i names =>
    rcases onInterpreter_cases steps with rfl | ⟨interpreter, hi, shown⟩
    · exact still
    · cases shown
      exact still
  | .tracer t =>
    rcases onTracer_cases steps with rfl | ⟨u, hu, shown⟩
    · exact still
    · cases shown
      exact still
  | .listing i t =>
    rcases onInterpreter_cases steps with rfl | ⟨interpreter, hi, shown⟩
    · exact still
    · rcases onTracer_cases shown with rfl | ⟨u, hu, shown⟩
      · exact still
      · cases shown
        exact still
  | .install i number policy =>
    rcases onInterpreter_cases steps with rfl | ⟨interpreter, hi, installed⟩
    · exact still
    · cases installed
      let added := { s with monitors.host := s.monitors.host.add number policy }
      have hi : added.interpreters[i]? = some interpreter := hi
      exact ⟨aside, .trans (.one (.host (·.add number policy)) rfl)
        (.one (.install i (recording s.monitors.host.all.size)) (congrArg some (listen_eq hi _)))⟩
  | .uninstall i =>
    rcases onInterpreter_cases steps with rfl | ⟨interpreter, hi, taken⟩
    · exact still
    · cases taken
      exact ⟨aside, .one (.uninstall i) (congrArg some (listen_eq hi none))⟩
  | .events number =>
    dsimp only at steps
    split at steps
    · cases steps
      exact still
    · next index _ =>
      cases steps
      have cleared := Situation.Leads.one (m := s.situation scopes aside)
        (.host fun r => { r with all := r.all.modify index (·.clear) }) rfl
      exact ⟨aside, cleared⟩
  | .exclude t code =>
    rcases onTracer_cases steps with rfl | ⟨u, hu, excluded⟩
    · exact still
    · cases excluded
      refine ⟨aside, .one (.exclude t code) ?_⟩
      dsimp only [Situation.after, situation, setTracer]
      rw [modify_eq_setIfInBounds hu]
  | .within i t inner =>
    rcases onInterpreter_cases steps with rfl | ⟨interpreter, hi, steps⟩
    · exact still
    rcases onTracer_cases steps with rfl | ⟨u, hu, steps⟩
    · exact still
    cases phase : u.phase with
    | active | finished =>
      simp only [Tracer.enter, phase] at steps
      cases steps
      exact still
    | idle =>
      simp only [Tracer.enter_eq_ok phase] at steps
      obtain ⟨⟨replies, last⟩, inside, left⟩ := Option.bind_eq_some_iff.1 steps
      cases left
      let entered := (s.setTracer t { u with phase := .active }).setInterpreter i
        (interpreter.enter t)
      have opened : (entered.situation (⟨i, t⟩ :: scopes)
          ((s.situation scopes aside).putAside t interpreter.listener)).Tidy :=
        tidy.entered hi hu phase
      obtain ⟨aside', moved⟩ := leads_of_takeAll opened inner inside
      exact ⟨_, leads_of_inside tidy hi hu phase moved⟩

theorem leads_of_takeAll {s s' : Session} {scopes : List TracerScope}
    {aside : Nat → Option (Listener (Monitors Recorders))} {n : Nat} {rs : List Reply}
    (tidy : (s.situation scopes aside).Tidy) (steps : List Step)
    (taken : takeAll n steps s = some (rs, s')) :
    ∃ aside', (s.situation scopes aside).Leads (s'.situation scopes aside') := by
  match steps with
  | [] =>
    cases taken
    exact ⟨aside, .refl _⟩
  | step :: steps =>
    unfold takeAll at taken
    obtain ⟨⟨r, between⟩, first, rest⟩ := Option.bind_eq_some_iff.1 taken
    obtain ⟨⟨rs, last⟩, rest, same⟩ := Option.bind_eq_some_iff.1 rest
    cases same
    obtain ⟨aside', moved⟩ := leads_of_take tidy step first
    obtain ⟨moves, after⟩ := moved
    obtain ⟨aside'', moved'⟩ := leads_of_takeAll (tidy.afterAll after) steps rest
    exact ⟨aside'', .trans ⟨moves, after⟩ moved'⟩

end

end

end Session

namespace Situation

/-- In every situation that a host can get to, whatever it does with its listeners and whatever
comes of what it asks: a move takes a tracer from idle to active or from active to finished, or
leaves its phase; lines are only added to those that it has recorded, and only while it is active,
so that none come after it has finished. A tracer that has been used is refused, which changes
nothing. An idle one can be entered, and when its scope is the innermost one and is left, the
listener of the interpreter is the one from before. The steps of a session are such moves. -/
theorem lifecycle {start m : Situation ω} {before : List (Move ω)} (fresh : start.Fresh)
    (reached : start.afterAll before = some m) :
    (∀ move m', m.after move = some m' → ∀ (t : Nat) (u : Tracer),
      m.monitors.tracers[t]? = some u →
      ∃ u' : Tracer, m'.monitors.tracers[t]? = some u' ∧ u.Advances u') ∧
    (∀ moves m', m.afterAll moves = some m' → ∀ (t : Nat) (u : Tracer),
      m.monitors.tracers[t]? = some u → u.phase = .finished → ∃ u' : Tracer,
        m'.monitors.tracers[t]? = some u' ∧ u'.phase = .finished ∧ u'.log = u.log) ∧
    (∀ (i t : Nat) (interpreter : Interpreter ω) (u : Tracer),
      m.interpreters[i]? = some interpreter → m.monitors.tracers[t]? = some u →
      (u.phase = .active →
        m.enter i t = .error .alreadyActive ∧ m.after (.enter i t) = some m) ∧
      (u.phase = .finished →
        m.enter i t = .error .alreadyUsed ∧ m.after (.enter i t) = some m) ∧
      (u.phase = .idle → ∃ m₁, m.enter i t = .ok m₁ ∧ m.after (.enter i t) = some m₁ ∧
        ∀ moves m₂, m₁.afterAll moves = some m₂ →
          m₂.scopes.head?.map TracerScope.tracer = some t →
          m₂.leave.scopes = m.scopes ∧
          ∃ j, m₂.leave.interpreters[i]? = some j ∧ j.listener = interpreter.listener)) ∧
    ∀ programs tracers n steps replies s,
      Session.takeAll n steps (Session.start programs tracers) = some (replies, s) →
      ∃ first aside, first = (Session.start programs tracers).situation [] (fun _ => none) ∧
        first.Fresh ∧ first.Leads (s.situation [] aside) := by
  have tidy := fresh.tidy.afterAll reached
  refine ⟨fun move m' moved t u hu => tidy.advances moved hu,
    fun moves m' moved t u hu finished => tidy.frozen moved hu finished,
    fun i t interpreter u hi hu => ⟨fun active => ?_, fun finished => ?_, fun idle => ?_⟩,
    fun programs tracers n steps replies s taken => ?_⟩
  · have refused : u.enter = .error .alreadyActive := by rw [Tracer.enter, active]
    exact ⟨enter_refused hi hu refused, after_enter_refused hi hu refused⟩
  · have refused : u.enter = .error .alreadyUsed := by rw [Tracer.enter, finished]
    exact ⟨enter_refused hi hu refused, after_enter_refused hi hu refused⟩
  · refine ⟨m.entered i t interpreter u, enter_idle hi hu idle, after_enter_idle hi hu idle,
      fun moves m₂ moved innermost => ?_⟩
    obtain ⟨scopes, aside⟩ := tidy.listener_back hi hu idle moved innermost
    have bound : i < m₂.interpreters.size := by
      rw [size_afterAll moved]
      dsimp only [entered]
      rw [Array.size_setIfInBounds]
      exact (Array.getElem?_eq_some_iff.1 hi).1
    unfold leave
    rw [scopes]
    refine ⟨rfl, m₂.interpreters[i].leave (m₂.aside t), ?_, aside⟩
    dsimp only
    rw [Array.getElem?_modify, if_pos rfl, Array.getElem?_eq_getElem bound]
    rfl
  · have fresh := Session.fresh_start programs tracers
    obtain ⟨aside, leads⟩ := Session.leads_of_takeAll fresh.tidy steps taken
    exact ⟨_, aside, rfl, fresh, leads⟩

/-- A run that fails because of the listener of the host, which is then taken out together with the
tracer in front of it, while that one is entered. -/
theorem lifecycle_removed :
    let host : Listener Unit := ⟨fun _ _ s => (.error "stop", s)⟩
    let i : Interpreter Unit := .new ⟨"pass", ⟨[.pass .start]⟩⟩ .default .steady
    let start : Situation Unit := ⟨#[i], ⟨#[.new], ()⟩, [], fun _ => none⟩
    start.Fresh ∧ ∃ m m₁ m₂, start.afterAll [.install 0 host] = some m ∧
      m.enter 0 0 = .ok m₁ ∧ m₁.afterAll [.ask 3 0 .run, .uninstall 0] = some m₂ ∧
      ∃ j, m₂.leave.interpreters[0]? = some j ∧ j.listener = some host.ofHost := by
  intro host i start
  have fresh : start.Fresh := by
    refine ⟨fun j hj => ?_, fun u hu => ?_, rfl⟩
    · obtain rfl : j = i := by simpa [start] using hj
      rfl
    · obtain rfl : u = .new := by simpa [start] using hu
      rfl
  have reached : start.afterAll [.install 0 host] = some (start.listen 0 (some host.ofHost)) := rfl
  obtain ⟨-, -, tracers, -⟩ := lifecycle fresh reached
  obtain ⟨-, -, entering⟩ := tracers 0 0 _ .new rfl rfl
  obtain ⟨m₁, entered, -, leaving⟩ := entering rfl
  have opened : m₁ = (start.listen 0 (some host.ofHost)).entered 0 0
      { i with listener := some host.ofHost } .new := (Except.ok.inj entered).symm
  obtain ⟨m₂, moved⟩ := Option.isSome_iff_exists.1
    (show (m₁.afterAll [.ask 3 0 .run, .uninstall 0]).isSome = true by
      rw [opened]
      decide +kernel)
  have innermost : (m₁.afterAll [.ask 3 0 .run, .uninstall 0]).map
      (fun m => m.scopes.map TracerScope.tracer) = some [0] := by
    rw [opened]
    decide +kernel
  rw [moved, Option.map_some, Option.some_inj] at innermost
  have head : m₂.scopes.head?.map TracerScope.tracer = some 0 := by
    rw [← List.head?_map, innermost]
    rfl
  obtain ⟨-, j, hj, listener⟩ := leaving _ m₂ moved head
  exact ⟨fresh, _, m₁, m₂, rfl, entered, moved, j, hj, listener⟩

end Situation

end

end Footprint
