import Footprint.Proofs.Lineage

set_option autoImplicit false

/-!
The regime of lineages: the steps of running keep a lineage beside the store, and notes of scenes
that are taken on the way show what the lineage says.
-/

namespace Footprint

/-- What a parsed script is like: its definitions are numbered, and each function has the names
stored that it binds. -/
structure Script.IsParsed (s : Script) : Prop where
  numbered : s.IsNumbered
  bound : (Node.script s).IsBound

namespace Lineage

variable {ω α : Type} {w w' : Lineage} {s : Script} {store : Store}

/-- The regime in which a lineage is kept beside the store, and notes are taken of scenes. -/
def regime (ω : Type) (s : Script) : Regime (Monitors (ω × List Scene)) where
  World := Lineage
  le := Le
  known := s.Contains
  holds w store μ := w.Sound s store ∧ w.Faithful s ∧ μ.notes = w.film
  value := Good
  closure w f := w.Closes s f
  scope w c r := ∀ fs, s.Nests c fs → w.Around (c.function?.toList ++ fs) r
  fresh := Fits
  frame w c k := w.Fits c k ∧ ∀ f r, k = .function f r → Activated w.film f r

theorem Sound.definitionScope {c : Code} {k : FrameKind} (sound : w.Sound s store)
    (fits : w.Fits c k) (shown : ∀ f r, k = .function f r → Activated w.film f r)
    {fs : List Function} (nests : s.Nests c fs) :
    w.Around (c.function?.toList ++ fs) (store.closure? k) := by
  cases fits with
  | top =>
    cases nests with
    | top => trivial
    | inner _ defines => nomatch defines
  | function owner => exact ⟨owner, shown _ _ rfl⟩
  | classBody owner => exact sound.parent owner nests

/-- What is bound in the scope of a code object that a statement of it binds. -/
theorem Sound.mayBind_of_bindingScope {c : Code} {k : FrameKind} {n : String} {r : ScopeRef}
    (sound : w.Sound s store) (parsed : s.IsParsed) (contained : s.Contains c) (fits : w.Fits c k)
    (binds : c.Binds n) (hr : store.bindingScope k n = .ok r) :
    ∀ d, w.Owner r d → s.MayBind d n := by
  have unbound {r : ScopeRef} {d : Code} (owner : w.Owner r d)
      (other : ∀ f, d ≠ .function f) : ∀ d, w.Owner r d → s.MayBind d n := by
    intro e owner' f hf
    cases owner.symm.trans owner'
    exact absurd hf (other f)
  cases fits with
  | top =>
    cases hr
    exact unbound sound.global fun f => nofun
  | classBody owner =>
    cases hr
    exact unbound owner fun f => nofun
  | @function f q owner =>
    unfold Store.bindingScope at hr
    dsimp only at hr
    split at hr
    · cases hr
      exact unbound sound.global fun f => nofun
    · next global =>
      split at hr
      · next nonlocal =>
        unfold Store.nonlocalScope at hr
        split at hr
        · next found =>
          cases hr
          have bound := List.find?_some found
          obtain ⟨v, hv⟩ := Option.isSome_iff_exists.1 bound
          exact fun d owner' => sound.bound hv owner'
        · split at hr
          · next found =>
            cases hr
            obtain ⟨fs, nests⟩ := contained.nests
            have around := sound.parent owner nests
            rw [found] at around
            cases fs with
            | nil => exact around.elim
            | cons g fs =>
              intro d owner' h hd
              cases around.1.symm.trans owner'
              cases hd
              exact .inr (.inr ⟨f, fs, nests, List.contains_iff_mem.1 nonlocal⟩)
          · cases hr
      · next nonlocal =>
        cases hr
        intro d owner' h hd
        cases owner.symm.trans owner'
        cases hd
        have own := (contained.isBound parsed.bound).local_of_binds binds
          (Bool.not_eq_true _ ▸ global) (Bool.not_eq_true _ ▸ nonlocal)
        exact .inl own

theorem Sound.bindParameters {f : Function} {r : ScopeRef} (sound : w.Sound s store)
    (owner : w.Owner r (.function f)) {vars : List (String × Value)}
    (hvars : ∀ b ∈ vars, b.1 ∈ f.head.params.map (·.name) ∧ w.Good b.2) :
    w.Sound s (vars.foldl (fun s b => s.set r b.1 b.2) store) := by
  induction vars generalizing store with
  | nil => exact sound
  | cons b vars ih =>
    obtain ⟨name, good⟩ := hvars b List.mem_cons_self
    refine ih (sound.set good fun d owner' g hg => ?_) fun b hb => hvars b (List.mem_cons_of_mem _ hb)
    cases owner.symm.trans owner'
    cases hg
    exact .inr (.inl name)

theorem Sound.callScope {f : Closure} {args : List Value} (sound : w.Sound s store)
    (closes : w.Closes s f) (good : ∀ v ∈ args, w.Good v) :
    Sound { w with owners := w.owners ++ [.function f.function] } s
      (callScope f.scope (boundArguments f.function args f.defaults) store).2 := by
  have later := Le.owned w (.function f.function)
  have made := sound.newScope closes.contained fun fs nests => closes.scope nests
  refine made.bindParameters (f := f.function) (sound.owner_next _) fun b hb => ?_
  obtain ⟨name, given | default⟩ := mem_boundArguments hb
  · exact ⟨name, (good _ given).mono later⟩
  · exact ⟨name, (closes.defaults _ default).mono later⟩

theorem around_of_defines {c d : Code} {r : Option ScopeRef} (parsed : s.IsParsed)
    (contained : s.Contains c) (defines : c.Defines d)
    (around : ∀ fs, s.Nests c fs → w.Around (c.function?.toList ++ fs) r) {fs : List Function}
    (nests : s.Nests d fs) : w.Around fs r := by
  obtain ⟨gs, outer, rfl⟩ := nests.of_defines parsed.numbered contained defines
  exact around gs outer

theorem kept (ω : Type) (parsed : s.IsParsed) (i : Interpreter ω) :
    (regime ω s).Kept (i.aside Scene).setting where
  refl := Le.refl
  trans := Le.trans
  known_of_defines contained defines := .inner contained defines
  value_mono later good := good.mono later
  closure_mono later closes := closes.mono later
  scope_mono later around := fun fs nests => (around fs nests).mono later
  fresh_mono later fits := fits.mono later
  frame_mono later frame := ⟨frame.1.mono later, fun f r hk =>
    (frame.2 f r hk).mono later.film.subset⟩
  fresh_of_frame frame := frame.1
  frame_top {s} w _ := ⟨.top s, fun f r => nofun⟩
  hear := by
    intro w s μ f d e ⟨sound, told, notes⟩
    exact ⟨sound, told, (i.notes_hear_aside f d e μ).trans notes⟩
  plain w plain := .plain plain
  tuple good := by
    cases good with
    | plain plain => cases plain
    | tuple id good => exact good
  method := ⟨fun _ => .list _, fun _ => .method _ _⟩
  items := fun ⟨sound, _, _⟩ _ v hv => sound.items (Array.mem_toList_iff.1 hv)
  binding := fun ⟨sound, _, _⟩ h => sound.good h
  newList := fun ⟨sound, told, notes⟩ good =>
    ⟨_, Le.refl _, ⟨sound.newList fun v hv => good v (Array.mem_toList_iff.2 hv), told, notes⟩,
      .list _⟩
  setItems := fun ⟨sound, told, notes⟩ _ good =>
    ⟨_, Le.refl _, sound.setItems fun v hv => good v (Array.mem_toList_iff.2 hv), told, notes⟩
  newTuple := fun ⟨sound, told, notes⟩ good =>
    ⟨_, Le.refl _, ⟨sound.count _, told, notes⟩, .tuple _ good⟩
  newException _ _ := fun ⟨sound, told, notes⟩ =>
    ⟨_, Le.refl _, ⟨sound.count _, told, notes⟩, .exception _ _ _⟩
  setAttribute := by
    rintro w store μ name attr r b v ⟨sound, told, notes⟩ value good
    cases value with
    | plain plain => cases plain
    | classObject name isException owner =>
      refine ⟨_, Le.refl _, sound.set good fun d owner' f hf => ?_, told, notes⟩
      cases owner.symm.trans owner'
      cases hf
  eraseAttribute := fun ⟨sound, told, notes⟩ _ => ⟨_, Le.refl _, sound.erase _ _, told, notes⟩
  assign contained frame binds := fun ⟨sound, told, notes⟩ good hr =>
    ⟨_, Le.refl _, sound.set good (sound.mayBind_of_bindingScope parsed contained frame.1 binds hr),
      told, notes⟩
  unassign _ _ _ := fun ⟨sound, told, notes⟩ _ => ⟨_, Le.refl _, sound.erase _ _, told, notes⟩
  found := fun ⟨sound, _, _⟩ h => sound.closes h
  known_closure closes := closes.contained
  definitionScope _ frame := fun ⟨sound, _, _⟩ _ nests =>
    sound.definitionScope frame.1 frame.2 nests
  defined contained owned around good :=
    ⟨.inner contained (.function owned), around_of_defines parsed contained (.function owned) around,
      good⟩
  newFunction := by
    rintro w store μ f ⟨sound, told, notes⟩ closes
    refine ⟨{ w with functions := w.functions + 1 },
      ⟨List.prefix_rfl, Nat.le_succ _, List.prefix_rfl⟩, ⟨sound.newFunction closes, told, notes⟩, ?_⟩
    exact .function (by simp [sound.functions])
  callScope := fun ⟨sound, told, notes⟩ closes good =>
    ⟨_, .owned _ _, ⟨sound.callScope closes good, told, notes⟩, .function (sound.owner_next _)⟩
  classScope contained owned around := fun ⟨sound, told, notes⟩ =>
    have inner := Script.Contains.inner contained (.classBody owned)
    have made := sound.newScope inner fun _ nests =>
      around_of_defines parsed contained (.classBody owned) around nests
    ⟨_, .owned _ _, ⟨made, told, notes⟩, .classBody (sound.owner_next _), fun _ =>
      .classObject _ _ (sound.owner_next _)⟩

/-! ### Scenes -/

/-- When a note of the scene has been taken, the frame has been shown. -/
theorem ready_shot {c : Code} {m : Machine (Monitors (ω × List Scene))}
    (contained : s.Contains c) (ready : (regime ω s).Ready (regime ω s).fresh c w m) :
    ∃ w' : Lineage, w.Le w' ∧ (regime ω s).Ready (regime ω s).frame c w' m.shot := by
  obtain ⟨⟨sound, told, notes⟩, returned, stack, f, hm, runs, fits, stands⟩ := ready
  have fits : w.Fits c f.kind := fits
  have frames : ∀ g ∈ m.stack, w.Frames s g := by
    intro g hg
    rw [hm, Array.mem_push] at hg
    rcases hg with hg | rfl
    · obtain ⟨d, known, runs, frame⟩ := stands g hg
      exact ⟨d, known, runs, frame.1⟩
    · exact ⟨c, contained, runs, fits⟩
  have later : w.Le { w with film := w.film ++ [⟨m.store, m.stack⟩] } :=
    ⟨List.prefix_rfl, Nat.le_refl _, List.prefix_append _ _⟩
  have taken := sound.shot frames
  have shown (g : Function) (r : ScopeRef) (hk : f.kind = .function g r) :
      Activated (w.film ++ [⟨m.store, m.stack⟩]) g r :=
    ⟨f, ⟨_, List.mem_append_right _ List.mem_cons_self, hm ▸ Array.mem_push_self⟩, hk⟩
  refine ⟨_, later, ⟨taken, told.shot taken, ?_⟩, Good.mono later returned, stack, f,
    hm, runs, ⟨fits.mono later, shown⟩, fun g hg => ?_⟩
  · exact congrArg (· ++ [_]) notes
  · obtain ⟨d, known, runs, fits, shown⟩ := stands g hg
    exact ⟨d, known, runs, fits.mono later, fun h r hk => (shown h r hk).mono later.film.subset⟩

theorem filmed (parsed : s.IsParsed) (i : Interpreter ω) {c : Code} (contained : s.Contains c)
    {P : Lineage → α → Prop} (mono : ∀ ⦃w w' a⦄, w.Le w' → P w a → P w' a)
    {x : Action (Monitors (ω × List Scene)) α} (hx : (regime ω s).Runs c w P x) :
    (regime ω s).Yields (regime ω s).fresh c w P (.filmed x) := by
  have h := kept ω parsed i
  intro w' later m ready
  obtain ⟨u, hu, there⟩ := ready_shot contained ready
  have comes := hx (later.trans hu) there
  have begun : (regime ω s).After u m m.shot :=
    ready.still there.holds there.returned rfl
  have ended {v : Lineage} {n : Machine (Monitors (ω × List Scene))} (hv : u.Le v)
      (after : (regime ω s).After v m.shot n) :
      ∃ v', v.Le v' ∧ (regime ω s).After v' m n.shot := by
    have back := (there.after h h.lasts_frame hv after).weaken h.fresh_of_frame
    obtain ⟨v', hv', end_⟩ := ready_shot contained back
    exact ⟨v', hv', begun.trans (after.trans (back.still end_.holds end_.returned rfl))⟩
  unfold Action.filmed
  cases hr : x m.shot with
  | done a n =>
    rw [hr] at comes
    obtain ⟨v, hv, after, ha⟩ := comes
    obtain ⟨v', hv', after⟩ := ended hv after
    exact ⟨v', hu.trans (hv.trans hv'), after, mono hv' ha⟩
  | failed f n =>
    rw [hr] at comes
    obtain ⟨v, hv, after⟩ := comes
    obtain ⟨v', hv', after⟩ := ended hv after
    exact ⟨v', hu.trans (hv.trans hv'), after⟩
  | unfinished n =>
    rw [hr] at comes
    obtain ⟨v, hv, holds⟩ := comes
    exact ⟨v, hu.trans hv, holds⟩

theorem filming_agrees (parsed : s.IsParsed) (i : Interpreter ω) (n : Nat) :
    (regime ω s).Agree ((i.aside Scene).setting.filming n) := by
  have h := kept ω parsed i
  induction n with
  | zero => exact ⟨fun _ _ => .unfinished h, fun _ _ => .unfinished h, fun _ _ _ => .unfinished h⟩
  | succ n ih =>
    constructor
    · intro c w t known asks
      exact filmed parsed i known (fun _ _ _ later good => good.mono later)
        (h.evaluation ih known asks)
    · intro c w t known places
      exact filmed parsed i known (P := (regime ω s).any) (fun _ _ _ _ h => h)
        (h.placement ih known places)
    · intro c w t known allowed goes
      exact filmed parsed i known (P := (regime ω s).any) (fun _ _ _ _ h => h)
        (h.execution ih known allowed goes)

end Lineage

end Footprint
