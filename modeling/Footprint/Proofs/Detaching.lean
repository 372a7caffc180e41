import Footprint.Proofs.Alike
import Footprint.Proofs.Idle

set_option autoImplicit false

/-!
Detaching is a filter. A listener that asks for no further events of the frames of some functions
hears what one hears that always goes on, without the lines, exceptions and returns of those frames:
their calls and all that happens in the frames above them are told as before.
-/

namespace Footprint

section

variable {α : Type}

/-- An event that has been written down, and its frame. -/
abbrev Told := FrameInfo × Event

/-- The state of a listener that writes down what it hears. -/
abbrev Notebook := Monitors (List Told)

/-- Writes down each event, and asks for no further events of the frames of some functions. -/
def Listener.writing (detached : String → Bool) : Listener Notebook where
  hear frame e book :=
    (.ok (if e = .call && detached frame.function then .detach else .proceed),
      ⟨book.tracers, book.host ++ [(frame, e)]⟩)

/-- The event is still told if the frames of some functions are detached. -/
def Event.survives (detached : String → Bool) (t : Told) : Bool :=
  t.2 = .call || !detached t.1.function

/-- What is written down, without the events that are not told if the frames of some functions are
detached. -/
def Monitors.surviving (detached : String → Bool) (book : Notebook) : List Told :=
  book.host.filter (Event.survives detached)

namespace Detaching

variable (detached : String → Bool)

/-- The setting with the writing listener in place. -/
def setting (detached : String → Bool) (limits : Limits) (clock : Clock) : Setting Notebook :=
  ⟨limits, clock, some (.writing detached)⟩

variable (limits : Limits) (clock clock' : Clock)

theorem hear_eq (f : Frame) (d : Nat) {e : Event} (told : (e = .call || f.traced) = true)
    (book : Notebook) :
    (setting detached limits clock).hear f d e book =
      (.ok (if e = .call && detached f.name then .detach else .proceed),
        ⟨book.tracers, book.host ++ [(f.info d, e)]⟩) := by
  unfold setting Setting.hear
  dsimp only
  rw [if_pos told]
  rfl

theorem hear_untold (f : Frame) (d : Nat) {e : Event} (untold : (e = .call || f.traced) = false)
    (book : Notebook) :
    (setting detached limits clock).hear f d e book = (.ok .proceed, book) := by
  unfold setting Setting.hear
  dsimp only
  rw [if_neg (by rw [untold]; exact Bool.false_ne_true)]

/-! ### Nothing else is told -/

/-- Everything in the book is told if the frames of the functions are detached. -/
def Clean (book : Notebook) : Prop := ∀ t ∈ book.host, Event.survives detached t = true

variable {detached}

theorem Clean.snoc {book : Notebook} (h : Clean detached book) {t : Told}
    (survives : Event.survives detached t = true) :
    Clean detached ⟨book.tracers, book.host ++ [t]⟩ := by
  intro u hu
  rcases List.mem_append.1 hu with old | new
  · exact h u old
  · obtain rfl := List.mem_singleton.1 new
    exact survives

theorem Clean.surviving_eq {book : Notebook} (h : Clean detached book) :
    book.surviving detached = book.host := List.filter_eq_self.2 h

/-- In a frame of a function that is not detached, every event survives. -/
theorem Clean.hear {book : Notebook} (h : Clean detached book) {f : Frame} (d : Nat) (e : Event)
    (attended : f.traced = false ∨ detached f.name = false) (other : e ≠ .call) :
    Clean detached ((setting detached limits clock).hear f d e book).2 := by
  cases told : (e = .call || f.traced) with
  | false =>
    rw [hear_untold detached limits clock f d told]
    exact h
  | true =>
    rw [hear_eq detached limits clock f d told]
    apply h.snoc
    have traced : f.traced = true := by simpa [other] using told
    rcases attended with untraced | attended
    · rw [traced] at untraced
      cases untraced
    · simp [Event.survives, Frame.info, attended]

variable (detached)

/-- The protocol in which only what survives is written down: a frame is not traced, or its function
is not detached. -/
def protocol : Protocol Notebook where
  known _ := True
  stage _ _ := True
  part c t _ p q := t = false ∨ detached c.name = false → Clean detached p.state →
    Clean detached q.state
  whole _ s s' := Clean detached s → Clean detached s'
  cut _ _ := True

theorem admits : (protocol detached).Admits (setting detached limits clock) where
  known_of_defines _ _ := trivial
  stage_push _ _ := trivial
  refl _ _ _ _ _ := id
  trans h h' attended clean := h' attended (h attended clean)
  line := by
    rintro c f n hs d s - - runs - attended clean
    apply clean.hear limits clock d .line _ (by decide)
    rwa [runs.1]
  activation := by
    rintro c f hs d s s' answer line reported s'' - - begins called part clean
    rw [hear_eq detached limits clock f d rfl] at called
    obtain ⟨rfl, rfl⟩ := Prod.mk.inj called
    have opened := clean.snoc (t := (f.info d, .call)) rfl
    have attended : staysTraced (.ok (if detached f.name then .detach else .proceed)) = false ∨
        detached f.name = false := by
      cases detached f.name with
      | true => exact .inl rfl
      | false => exact .inr rfl
    apply Clean.hear limits clock _ d .ret attended (by decide)
    exact part (begins.runs.1 ▸ attended) opened
  inner h _ := h
  cut_part _ := trivial
  cut_call _ _ _ _ := trivial
  cut_trans _ _ := trivial

theorem exceptions :
    (protocol detached).AdmitsExceptions (setting detached limits clock) where
  told := by
    rintro c f hs d s - - runs - attended clean
    apply clean.hear limits clock d .exception _ (by decide)
    rwa [runs.1]
  caught _ _ _ _ _ _ _ := id

/-! ### Everything else is told -/

/-- All of a frame but whether it is traced if its function is detached. -/
def frames : FrameView where
  see f := { f with traced := f.traced && !detached f.name }
  see_eq _ := ⟨_, rfl⟩
  see_line _ _ := rfl
  see_reported _ _ := rfl

/-- Machines that are the same but for what happens in the frames of functions that are detached, by
whatever clocks. -/
def likeness : Likeness Notebook Notebook :=
  ⟨frames detached, fun _ _ => True, fun book book' =>
    book.surviving detached = book'.surviving detached⟩

variable {detached}

/-- What survives of an event does not depend on whether a frame is traced whose function is
detached, nor on whether the listener detaches. -/
theorem surviving_hear (detached' : String → Bool) (f : Frame) (d : Nat) (e : Event)
    (book : Notebook) :
    ((setting detached' limits clock).hear f d e book).2.surviving detached =
      book.surviving detached ++
        if e = .call || ((frames detached).see f).traced then
          [(((frames detached).see f).info d, e)] else [] := by
  have survives : Event.survives detached (f.info d, e) = (e = .call || !detached f.name) := rfl
  have info : ((frames detached).see f).info d = f.info d := rfl
  have traced : ((frames detached).see f).traced = (f.traced && !detached f.name) := rfl
  rw [info, traced]
  cases told : (e = .call || f.traced) with
  | false =>
    rw [hear_untold detached' limits clock f d told]
    obtain ⟨other, untraced⟩ := Bool.or_eq_false_iff.1 told
    simp [other, untraced]
  | true =>
    rw [hear_eq detached' limits clock f d told]
    unfold Monitors.surviving
    rw [List.filter_append]
    congr 1
    rw [List.filter_cons, survives, List.filter_nil]
    cases hcall : (decide (e = .call)) with
    | true => simp
    | false =>
      have traced : f.traced = true := by simpa [hcall] using told
      simp [traced]

section

variable {f g : Frame} (same : (frames detached).see f = (frames detached).see g)

include same

theorem hear_alike (d : Nat) (e : Event) {book book' : Notebook}
    (h : book.surviving detached = book'.surviving detached) :
    ((setting (fun _ => false) limits clock).hear f d e book).2.surviving detached =
      ((setting detached limits clock').hear g d e book').2.surviving detached := by
  rw [surviving_hear, surviving_hear, same, h]

end

/-- The top frames look the same, if there are any. -/
theorem back_alike {m m' : Machine Notebook} (h : m.Alike (likeness detached) m') :
    (m.stack.back? = none ∧ m'.stack.back? = none) ∨
    ∃ f g, m.stack.back? = some f ∧ m'.stack.back? = some g ∧
      (frames detached).see f = (frames detached).see g := by
  have back : m.stack.back?.map (frames detached).see =
      m'.stack.back?.map (frames detached).see := by
    rw [← Array.back?_map, ← Array.back?_map]
    exact congrArg Array.back? h.stack
  cases hf : m.stack.back? with
  | none =>
    rw [hf, Option.map_none, eq_comm, Option.map_eq_none_iff] at back
    exact .inl ⟨rfl, back⟩
  | some f =>
    rw [hf, Option.map_some, eq_comm] at back
    obtain ⟨g, hg, same⟩ := Option.map_eq_some_iff.1 back
    exact .inr ⟨f, g, rfl, hg, same.symm⟩

/-- The listener never fails, and only its answer to a call depends on the frame. -/
theorem ask_eq_done {f : Frame} (e : Event) {m : Machine Notebook} (hf : m.stack.back? = some f) :
    (setting detached limits clock).ask e m =
      .done (if e = .call && detached f.name then .detach else .proceed)
        { m with
          monitor := ((setting detached limits clock).hear f m.stack.size e m.monitor).2 } := by
  rw [Setting.ask_eq_hear, hf]
  cases told : (e = .call || f.traced) with
  | false =>
    have other : (decide (e = .call)) = false := (Bool.or_eq_false_iff.1 told).1
    simp [hear_untold detached limits clock f _ told, other]
  | true => simp [hear_eq detached limits clock f _ told]

theorem ask_eq_still (e : Event) {m : Machine Notebook} (h : m.stack.back? = none) :
    (setting detached limits clock).ask e m = .done .proceed m := by
  rw [Setting.ask_eq_hear, h]

/-- A change of the top frame that is not seen. -/
theorem map_modify_top (v : FrameView) {stack : Array Frame} {u : Frame → Frame}
    (unseen : ∀ f ∈ stack.back?, v.see (u f) = v.see f) :
    (stack.modify (stack.size - 1) u).map v.see = stack.map v.see := by
  apply Array.ext_getElem?
  intro k
  rw [Array.getElem?_map, Array.getElem?_map, Array.getElem?_modify]
  split
  · next top =>
    subst top
    rw [Array.back?_eq_getElem?] at unseen
    cases hf : stack[stack.size - 1]? with
    | none => rfl
    | some f => exact congrArg some (unseen f hf)
  · rfl

/-- Telling an event to the one who goes on and to the one who detaches. -/
theorem tell_alike {f g : Frame} {m m' : Machine Notebook} (hm : m.Alike (likeness detached) m')
    (same : (frames detached).see f = (frames detached).see g) (e : Event) :
    Machine.Alike (likeness detached)
      { m with monitor :=
        ((setting (fun _ => false) limits clock).hear f m.stack.size e m.monitor).2 }
      { m' with monitor :=
        ((setting detached limits clock').hear g m'.stack.size e m'.monitor).2 } := by
  have monitor := hear_alike limits clock clock' same m.stack.size e hm.monitor
  rw [hm.depth] at monitor ⊢
  exact { hm with monitor }

theorem alike (timeless : limits.deadline = none) :
    (setting (fun _ => false) limits clock).Alike (likeness detached)
      (setting detached limits clock') where
  limits := rfl
  startTimer _ _ hm := .done () { hm with timer := trivial }
  checkDeadline := by
    intro m m' hm
    have timeless' : (setting (fun _ => false) limits clock).limits.deadline = none := timeless
    have timeless'' : (setting detached limits clock').limits.deadline = none := timeless
    simp only [Setting.checkDeadline, timeless', timeless'']
    exact .done () hm
  tell e other := by
    intro m m' hm
    rw [Setting.tell_apply, Setting.tell_apply]
    rcases back_alike hm with ⟨hf, hg⟩ | ⟨f, g, hf, hg, same⟩
    · rw [ask_eq_still limits clock e hf, ask_eq_still limits clock' e hg]
      exact .done () hm
    · rw [ask_eq_done limits clock e hf, ask_eq_done limits clock' e hg]
      exact .done () (tell_alike limits clock clock' hm same e)
  announce := by
    intro m m' hm
    unfold Setting.announce
    rw [Action.bind_apply, Action.bind_apply]
    rcases back_alike hm with ⟨hf, hg⟩ | ⟨f, g, hf, hg, same⟩
    · rw [ask_eq_still limits clock .call hf, ask_eq_still limits clock' .call hg]
      exact .done () hm
    · rw [ask_eq_done limits clock .call hf, ask_eq_done limits clock' .call hg]
      have told := tell_alike limits clock clock' hm same .call
      cases hd : detached g.name with
      | false =>
        dsimp only
        exact .done () told
      | true =>
        -- only here do the machines come to differ in what is traced
        have unseen : (m'.stack.modify (m'.stack.size - 1) ({ · with traced := false })).map
            (frames detached).see = m'.stack.map (frames detached).see := by
          apply map_modify_top
          intro g' hg'
          obtain rfl : g = g' := Option.some.inj (hg.symm.trans hg')
          simp [frames, hd]
        dsimp only
        exact .done () { told with stack := told.stack.trans unseen.symm }

/-! ### What runs and calls write -/

theorem clean_runScript (n : Nat) (script : Script) {m : Machine Notebook}
    (clean : Clean detached m.monitor) :
    ((setting detached limits clock).runScript n script m).Ends (Clean detached ·.monitor) := by
  have agree := Protocol.calls (admits detached limits clock) (exceptions detached limits clock)
    (fun _ _ => trivial) n
  have concludes := Protocol.runWith_concludes (m := m) (admits detached limits clock) agree script
    trivial trivial fun _ _ _ => trivial
  apply concludes.ends.imp
  intro m' returned
  rcases returned.monitor with ⟨-, same⟩ | kept
  · rw [same]
    exact clean
  · exact kept clean

theorem clean_callGlobal (n : Nat) (name : String) (args : List Value) {m : Machine Notebook}
    (clean : Clean detached m.monitor) :
    ((setting detached limits clock).callGlobal n name args m).Ends (Clean detached ·.monitor) := by
  have agree := Protocol.calls (admits detached limits clock) (exceptions detached limits clock)
    (fun _ _ => trivial) n
  have concludes := Protocol.callGlobal_concludes (m := m) (admits detached limits clock) agree ⟨[]⟩
    trivial trivial (fun _ _ _ => trivial) name args
  apply concludes.ends.imp
  intro m' answered
  obtain ⟨line, reported, kept⟩ := answered.monitor
  exact kept (.inl rfl) clean

end Detaching

namespace Interpreter

/-- The interpreter with a listener that writes down what it hears. -/
def writing (i : Interpreter (List Told)) (clock : Clock) (detached : String → Bool) :
    Interpreter (List Told) :=
  { i with clock, listener := some (.writing detached) }

/-- What comes of a computation of the host, and what has been written down. -/
def told (ended : Option (Except Failure α × Interpreter (List Told) × Notebook)) :
    Option (Except Failure α × List Told) :=
  ended.map fun (r, _, book) => (r, book.host)

theorem told_act (i : Interpreter (List Told)) (book : Notebook)
    (x : Setting Notebook → Action Notebook α) :
    told (i.act book x) =
      match x i.setting (i.machine.withMonitor book) with
      | .done a m => some (.ok a, m.monitor.host)
      | .failed f m => some (.error f, m.monitor.host)
      | .unfinished _ => none := by
  unfold act told
  cases x i.setting (i.machine.withMonitor book) with
  | done a m | failed f m | unfinished m => rfl

section

variable {i : Interpreter (List Told)} {clock clock' : Clock} {detached : String → Bool}

/-- If two listeners keep machines alike and the second writes down only what survives, that is
what survives of what the first writes down. -/
theorem told_of_alike {book : Notebook} {x : Setting Notebook → Action Notebook α}
    (alike : Action.Alike (Detaching.likeness detached)
      (x (Detaching.setting (fun _ => false) i.limits clock))
      (x (Detaching.setting detached i.limits clock')))
    (clean : (x (Detaching.setting detached i.limits clock') (i.machine.withMonitor book)).Ends
      (Detaching.Clean detached ·.monitor)) :
    (told ((i.writing clock fun _ => false).act book x)).map
        (fun (r, events) => (r, events.filter (Event.survives detached))) =
      told ((i.writing clock' detached).act book x) := by
  have same : (i.machine.withMonitor book).Alike (Detaching.likeness detached)
      (i.machine.withMonitor book) := ⟨rfl, rfl, rfl, rfl, rfl, rfl, rfl, trivial, rfl⟩
  have survivors {m m' : Machine Notebook} (h : m.Alike (Detaching.likeness detached) m')
      (clean : Detaching.Clean detached m'.monitor) :
      m.monitor.host.filter (Event.survives detached) = m'.monitor.host :=
    h.monitor.trans clean.surviving_eq
  rw [told_act, told_act]
  change Option.map _ (match x (Detaching.setting (fun _ => false) i.limits clock)
      (i.machine.withMonitor book) with
    | .done a m => some (Except.ok a, m.monitor.host)
    | .failed f m => some (.error f, m.monitor.host)
    | .unfinished _ => none) =
    match x (Detaching.setting detached i.limits clock') (i.machine.withMonitor book) with
    | .done a m => some (Except.ok a, m.monitor.host)
    | .failed f m => some (.error f, m.monitor.host)
    | .unfinished _ => none
  rcases (alike same).cases with ⟨a, m, m', e, e', h⟩ | ⟨f, m, m', e, e', h⟩ | ⟨m, m', e, e', -⟩
  · rw [e'] at clean
    simp only [e, e', Option.map_some, survivors h clean]
  · rw [e'] at clean
    simp only [e, e', Option.map_some, survivors h clean]
  · simp only [e, e', Option.map_none]

end

/-- What is written down when the frames of some functions are detached is what is written down
otherwise, without the lines, exceptions and returns of those frames. -/
theorem detaching_filters (i : Interpreter (List Told)) (timeless : i.limits.deadline = none)
    (detached : String → Bool) (clock clock' : Clock) (tracers : Array Tracer) (n : Nat) :
    (told ((i.writing clock fun _ => false).run n ⟨tracers, []⟩)).map
        (fun (r, events) => (r, events.filter (Event.survives detached))) =
      told ((i.writing clock' detached).run n ⟨tracers, []⟩) ∧
    ∀ (name : String) (args : Edit (List Value)),
      (told ((i.writing clock fun _ => false).call n ⟨tracers, []⟩ name args)).map
          (fun (r, events) => (r, events.filter (Event.survives detached))) =
        told ((i.writing clock' detached).call n ⟨tracers, []⟩ name args) := by
  have alike : (Detaching.setting (fun _ => false) i.limits clock).Alike
      (Detaching.likeness detached) (Detaching.setting detached i.limits clock') :=
    Detaching.alike i.limits clock clock' timeless
  have empty : Detaching.Clean detached ⟨tracers, []⟩ := fun t ht => nomatch ht
  constructor
  · apply told_of_alike (alike.runScript n i.program.script)
    exact Detaching.clean_runScript _ _ n _ empty
  · intro name args
    refine told_of_alike (x := fun env => do
      let vs ← Action.edit args
      env.callGlobal n name vs) ?_ ?_
    · exact (Action.Alike.edit args).bind fun vs => alike.callGlobal n name vs
    · rw [Action.bind_apply, Action.edit_apply]
      exact Detaching.clean_callGlobal _ _ n name _ empty

/-- The frame that defines a class is detached; that of the class body is not. -/
theorem detaching_filters_class :
    let i : Interpreter (List Told) :=
      new ⟨"class C: pass", ⟨[.classDef ⟨"C", [], [], 1, ⟨1, 1⟩, 1⟩ [.pass ⟨1, 10⟩]]⟩⟩ .default
        .steady
    let top : FrameInfo := ⟨"<module>", 0, 1, 1⟩
    let body : FrameInfo := ⟨"C", 1, 1, 2⟩
    let detached : String → Bool := (· == "<module>")
    i.limits.deadline = none ∧
    (told ((i.writing .steady fun _ => false).run 9 ⟨#[], []⟩)).map
        (fun (r, events) => (r, events.filter (Event.survives detached))) =
      told ((i.writing .steady detached).run 9 ⟨#[], []⟩) ∧
    (told ((i.writing .steady fun _ => false).run 9 ⟨#[], []⟩)).map Prod.snd =
      some [(top, .call), (top, .line), (body, .call), (body, .line), (body, .line), (body, .ret),
        (top, .ret)] ∧
    (told ((i.writing .steady detached).run 9 ⟨#[], []⟩)).map Prod.snd =
      some [(top, .call), (body, .call), (body, .line), (body, .line), (body, .ret)] := by
  intro i top body detached
  exact ⟨rfl, (detaching_filters i rfl detached .steady .steady #[] 9).1, by decide +kernel,
    by decide +kernel⟩

end Interpreter

end

end Footprint
