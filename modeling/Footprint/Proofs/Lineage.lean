import Mathlib.Data.List.Forall2
import Footprint.Proofs.RegimeRuns
import Footprint.Proofs.Scenes
import Footprint.Proofs.StoreScopes

set_option autoImplicit false

/-!
Where scopes come from. Each scope is made for one code object: the global one for the top level, the
others for activations of functions and for class bodies. Beside a store goes its lineage, which
says for which code object each scope has been made. It is kept by all changes of the store that a
run makes, and with it that the parent of a scope belongs to the innermost function around, and that
functions bind in their scopes what the text of the script says.
-/

namespace Footprint

/-! ### What a film shows -/

/-- The frame is one of a scene of the film. -/
def Appears (film : List Scene) (f : Frame) : Prop := ∃ scene ∈ film, f ∈ scene.stack

/-- The scope has been made for the local names of an activation of the function. -/
def Activated (film : List Scene) (f : Function) (r : ScopeRef) : Prop :=
  ∃ frame, Appears film frame ∧ frame.kind = .function f r

theorem Activated.mono {film film' : List Scene} {f : Function} {r : ScopeRef}
    (h : Activated film f r) (later : film ⊆ film') : Activated film' f r := by
  obtain ⟨frame, ⟨scene, hscene, shown⟩, kind⟩ := h
  exact ⟨frame, ⟨scene, later hscene, shown⟩, kind⟩

/-- In an activation of the code object a name may be bound: the names that are local to it, its
parameters, and those that functions right inside it declare nonlocal. Other scopes than those of
functions may bind any name. -/
def Script.MayBind (s : Script) (c : Code) (n : String) : Prop :=
  ∀ f, c = .function f → n ∈ f.head.bound.locals ∨ n ∈ f.head.params.map (·.name) ∨
    ∃ g fs, s.Nests (.function g) (f :: fs) ∧ n ∈ g.head.bound.nonlocals

/-- What is the case at the end of a film. Functions are functions of the script, and the scopes
around a function, around an activation and around a class body have been made for activations of
the functions that the text has around it, one for each. A scope has been made for one function
only, and the namespace of a class is around no other scope. Scopes are younger than those around
them, so that chains of scopes are the whole chains. -/
structure Script.Mirrors (s : Script) (film : List Scene) (store : Store) : Prop where
  older (r p : ScopeRef) : store.parent r = some p → p.index < r.index
  functions {q : FunctionRef} : store.Stores (.function q) → ∃ f, store.function? q = some f
  closures {q : FunctionRef} {f : Closure} : store.function? q = some f →
    ∃ fs, s.Nests (.function f.function) fs ∧
      List.Forall₂ (Activated film) fs (store.chain f.scope)
  activations {f : Function} {r : ScopeRef} : Activated film f r →
    ∃ fs, s.Nests (.function f) fs ∧ List.Forall₂ (Activated film) fs (store.ancestors r)
  namespaces {frame : Frame} {r : ScopeRef} : Appears film frame → frame.kind = .classBody r →
    ∃ head body fs, (Code.classBody head body).Runs frame ∧ s.Nests (.classBody head body) fs ∧
      List.Forall₂ (Activated film) fs (store.ancestors r)
  once {f g : Function} {r : ScopeRef} : Activated film f r → Activated film g r → f = g
  apart {frame : Frame} {r q : ScopeRef} : Appears film frame → frame.kind = .classBody r →
    r ∉ store.ancestors q
  classes {name : String} {r q : ScopeRef} {isException : Bool} :
    store.Stores (.classObject name r isException) → r ∉ store.ancestors q

/-- At the end of a film scopes of functions bind such names only as they may. -/
def Script.BindsOwn (s : Script) (film : List Scene) (store : Store) : Prop :=
  ∀ f r n v, Activated film f r → store.get? r n = some v → s.MayBind (.function f) n

/-! ### Lineages -/

/-- What has been made so far. -/
structure Lineage where
  /-- For which code object each scope has been made. -/
  owners : List Code
  /-- The number of functions. -/
  functions : Nat
  film : List Scene

namespace Lineage

structure Le (w w' : Lineage) : Prop where
  owners : w.owners <+: w'.owners
  functions : w.functions ≤ w'.functions
  film : w.film <+: w'.film

/-- The scope has been made for the code object. -/
def Owner (w : Lineage) (r : ScopeRef) (c : Code) : Prop := w.owners[r.index]? = some c

/-- The references in the value are to functions, and to scopes of class bodies, that have been
made. -/
inductive Good (w : Lineage) : Value → Prop
  | plain {v : Value} : v.isPlain = true → Good w v
  | list (r : ListRef) : Good w (.list r)
  | method (r : ListRef) (m : ListMethod) : Good w (.method r m)
  | tuple (id : Nat) {vs : List Value} : (∀ v ∈ vs, Good w v) → Good w (.tuple id vs)
  | function {r : FunctionRef} : r.index < w.functions → Good w (.function r)
  | classObject (name : String) {r : ScopeRef} (isException : Bool) {head : ClassHead}
      {body : List Stmt} : w.Owner r (.classBody head body) →
      Good w (.classObject name r isException)
  | exception (id : Nat) (kind message : String) : Good w (.exception id kind message)

/-- The scope has been made for the innermost one of the functions, in an activation that has been
shown; without functions there is no scope. -/
def Around (w : Lineage) : List Function → Option ScopeRef → Prop
  | [], none => True
  | f :: _, some r => w.Owner r (.function f) ∧ Activated w.film f r
  | _, _ => False

/-- The function is one of the script, defined in a scope of the innermost function around it. -/
structure Closes (w : Lineage) (s : Script) (f : Closure) : Prop where
  contained : s.Contains (.function f.function)
  scope {fs : List Function} : s.Nests (.function f.function) fs → w.Around fs f.scope
  defaults : ∀ v ∈ f.defaults, w.Good v

/-- A frame of such a kind runs the code object, in a scope that has been made for it. -/
inductive Fits (w : Lineage) : Code → FrameKind → Prop
  | top (s : Script) : Fits w (.top s) .top
  | function {f : Function} {r : ScopeRef} : w.Owner r (.function f) →
      Fits w (.function f) (.function f r)
  | classBody {head : ClassHead} {body : List Stmt} {r : ScopeRef} :
      w.Owner r (.classBody head body) → Fits w (.classBody head body) (.classBody r)

/-- The frame runs a code object of the script. -/
def Frames (w : Lineage) (s : Script) (f : Frame) : Prop :=
  ∃ c, s.Contains c ∧ c.Runs f ∧ w.Fits c f.kind

/-- The lineage is that of the store. -/
structure Sound (w : Lineage) (s : Script) (store : Store) : Prop where
  size : w.owners.length = store.scopes.size
  functions : w.functions = store.functions.size
  global : w.Owner globalScope (.top s)
  contained : ∀ c ∈ w.owners, s.Contains c
  parent {r : ScopeRef} {c : Code} {fs : List Function} : w.Owner r c → s.Nests c fs →
    w.Around fs (store.parent r)
  older (r p : ScopeRef) : store.parent r = some p → p.index < r.index
  good {r : ScopeRef} {n : String} {v : Value} : store.get? r n = some v → w.Good v
  bound {r : ScopeRef} {n : String} {v : Value} {c : Code} : store.get? r n = some v →
    w.Owner r c → s.MayBind c n
  closes {q : FunctionRef} {f : Closure} : store.function? q = some f → w.Closes s f
  items {l : ListRef} {v : Value} : v ∈ store.items l → w.Good v
  frames : ∀ scene ∈ w.film, ∀ f ∈ scene.stack, w.Frames s f

/-- What can be said at the end of the film has been the case all through it. -/
def Faithful (w : Lineage) (s : Script) : Prop :=
  Throughout (fun film store => s.Mirrors film store ∧ s.BindsOwn film store) w.film

/-! ### Later lineages -/

variable {w w' w'' : Lineage} {s : Script} {store : Store}

theorem Le.refl (w : Lineage) : w.Le w := ⟨List.prefix_rfl, Nat.le_refl _, List.prefix_rfl⟩

theorem Le.trans (h : w.Le w') (h' : w'.Le w'') : w.Le w'' :=
  ⟨h.owners.trans h'.owners, Nat.le_trans h.functions h'.functions, h.film.trans h'.film⟩

/-- A step for which a scope is made. -/
theorem Le.owned (w : Lineage) (c : Code) : w.Le { w with owners := w.owners ++ [c] } :=
  ⟨List.prefix_append _ _, Nat.le_refl _, List.prefix_rfl⟩

variable (h : w.Le w')

include h

theorem Owner.mono {r : ScopeRef} {c : Code} (hr : w.Owner r c) : w'.Owner r c := by
  obtain ⟨rest, same⟩ := h.owners
  unfold Owner at hr ⊢
  rw [← same, List.getElem?_append_left (List.getElem?_eq_some_iff.1 hr).1]
  exact hr

theorem Good.mono {v : Value} (hv : w.Good v) : w'.Good v := by
  induction hv with
  | plain plain => exact .plain plain
  | list r => exact .list r
  | method r m => exact .method r m
  | tuple id _ ih => exact .tuple id ih
  | function made => exact .function (Nat.lt_of_lt_of_le made h.functions)
  | classObject name isException owner => exact .classObject name isException (owner.mono h)
  | exception id kind message => exact .exception id kind message

theorem Around.mono {fs : List Function} {r : Option ScopeRef} (hr : w.Around fs r) :
    w'.Around fs r := by
  match fs, r with
  | [], none => trivial
  | f :: fs, some r => exact ⟨hr.1.mono h, hr.2.mono h.film.subset⟩

theorem Closes.mono {f : Closure} (hf : w.Closes s f) : w'.Closes s f :=
  ⟨hf.contained, fun nests => (hf.scope nests).mono h, fun v hv => (hf.defaults v hv).mono h⟩

theorem Fits.mono {c : Code} {k : FrameKind} (hk : w.Fits c k) : w'.Fits c k := by
  cases hk with
  | top s => exact .top s
  | function owner => exact .function (owner.mono h)
  | classBody owner => exact .classBody (owner.mono h)

theorem Frames.mono {f : Frame} (hf : w.Frames s f) : w'.Frames s f := by
  obtain ⟨c, contained, runs, fits⟩ := hf
  exact ⟨c, contained, runs, fits.mono h⟩

omit h

/-! ### What is the case with a sound lineage -/

namespace Sound

variable (sound : w.Sound s store)

include sound

theorem index_lt {r : ScopeRef} {c : Code} (owner : w.Owner r c) :
    r.index < store.scopes.size := by
  rw [← sound.size]
  exact (List.getElem?_eq_some_iff.1 owner).1

/-- The scopes around a place have been made for the functions around it. -/
theorem chain {c : Code} {fs : List Function} {r : Option ScopeRef} (nests : s.Nests c fs)
    (around : w.Around fs r) :
    List.Forall₂ (fun f q => w.Owner q (.function f) ∧ Activated w.film f q) fs
      (store.chain r) := by
  induction fs generalizing c r with
  | nil =>
    cases r with
    | none => exact .nil
    | some q => exact around.elim
  | cons f fs ih =>
    cases r with
    | none => exact around.elim
    | some q =>
      have outward := nests.outward
      have rest := ih outward (sound.parent around.1 outward)
      refine .cons around ?_
      rw [store.ancestors_eq sound.older]
      exact rest

theorem ancestors {c : Code} {fs : List Function} {r : ScopeRef} (owner : w.Owner r c)
    (nests : s.Nests c fs) :
    List.Forall₂ (fun f q => w.Owner q (.function f) ∧ Activated w.film f q) fs
      (store.ancestors r) := by
  rw [store.ancestors_eq sound.older]
  exact sound.chain nests (sound.parent owner nests)

theorem stored {v : Value} (hv : store.Stores v) : w.Good v := by
  induction hv with
  | binding bound => exact sound.good bound
  | item listed => exact sound.items listed
  | default found hv => exact (sound.closes found).defaults _ hv
  | part _ hv ih =>
    cases ih with
    | plain plain => cases plain
    | tuple id good => exact good _ hv

theorem owner_of_activated {f : Function} {r : ScopeRef} (h : Activated w.film f r) :
    w.Owner r (.function f) := by
  obtain ⟨frame, ⟨scene, hscene, hframe⟩, kind⟩ := h
  obtain ⟨c, -, -, fits⟩ := sound.frames scene hscene frame hframe
  rw [kind] at fits
  cases fits with
  | function owner => exact owner

theorem owner_of_ancestor {r q : ScopeRef} (h : r ∈ store.ancestors q) :
    ∃ f, w.Owner r (.function f) := by
  by_cases room : q.index < store.scopes.size
  · rw [← sound.size] at room
    have owner : w.Owner q w.owners[q.index] := List.getElem?_eq_getElem room
    obtain ⟨fs, nests⟩ := (sound.contained _ (List.getElem_mem room)).nests
    have around := sound.ancestors owner nests
    clear nests
    generalize store.ancestors q = rs at h around
    induction around with
    | nil => cases h
    | cons first _ ih =>
      rcases List.mem_cons.1 h with rfl | h
      · exact ⟨_, first.1⟩
      · exact ih h
  · rw [store.ancestors_eq sound.older, Store.parent_of_size_le (Nat.le_of_not_lt room)] at h
    cases h

/-- The scope of a class body is around no other scope. -/
theorem not_mem_ancestors {r q : ScopeRef} {head : ClassHead} {body : List Stmt}
    (owner : w.Owner r (.classBody head body)) : r ∉ store.ancestors q := by
  intro inside
  obtain ⟨f, owner'⟩ := sound.owner_of_ancestor inside
  cases owner.symm.trans owner'

theorem mirrored : s.Mirrors w.film store where
  older := sound.older
  functions := by
    intro q hq
    cases sound.stored hq with
    | plain plain => cases plain
    | function made =>
      rw [sound.functions] at made
      exact ⟨_, Array.getElem?_eq_getElem made⟩
  closures found := by
    have closes := sound.closes found
    obtain ⟨fs, nests⟩ := closes.contained.nests
    exact ⟨fs, nests, (sound.chain nests (closes.scope nests)).imp fun _ _ h => h.2⟩
  activations shown := by
    have owner := sound.owner_of_activated shown
    obtain ⟨fs, nests⟩ := (sound.contained _ (List.mem_of_getElem? owner)).nests
    exact ⟨fs, nests, (sound.ancestors owner nests).imp fun _ _ h => h.2⟩
  namespaces := by
    rintro frame r ⟨scene, hscene, hframe⟩ kind
    obtain ⟨c, contained, runs, fits⟩ := sound.frames scene hscene frame hframe
    obtain ⟨fs, nests⟩ := contained.nests
    rw [kind] at fits
    cases fits with
    | classBody owner =>
      exact ⟨_, _, fs, runs, nests, (sound.ancestors owner nests).imp fun _ _ h => h.2⟩
  once shown shown' := by
    have owner := sound.owner_of_activated shown
    have owner' := sound.owner_of_activated shown'
    exact Code.function.inj (Option.some.inj (owner.symm.trans owner'))
  apart := by
    rintro frame r q ⟨scene, hscene, hframe⟩ kind
    obtain ⟨c, -, -, fits⟩ := sound.frames scene hscene frame hframe
    rw [kind] at fits
    cases fits with
    | classBody owner => exact sound.not_mem_ancestors owner
  classes stored := by
    cases sound.stored stored with
    | plain plain => cases plain
    | classObject _ _ owner => exact sound.not_mem_ancestors owner

/-! ### Changes of the store -/

/-- A change that makes no scope and no function. -/
theorem changed {store' : Store} (size : store'.scopes.size = store.scopes.size)
    (functions : store'.functions = store.functions)
    (parent : ∀ r, store'.parent r = store.parent r)
    (bound : ∀ r n v, store'.get? r n = some v → store.get? r n = some v ∨
      w.Good v ∧ ∀ c, w.Owner r c → s.MayBind c n)
    (items : ∀ l v, v ∈ store'.items l → w.Good v) : w.Sound s store' where
  size := sound.size.trans size.symm
  functions := by rw [functions, sound.functions]
  global := sound.global
  contained := sound.contained
  parent owner nests := by
    rw [parent]
    exact sound.parent owner nests
  older r p hp := sound.older r p (parent r ▸ hp)
  good h := (bound _ _ _ h).elim sound.good fun new => new.1
  bound h owner := (bound _ _ _ h).elim (fun old => sound.bound old owner) fun new => new.2 _ owner
  closes {q f} h := by
    rw [Store.function?, functions] at h
    exact sound.closes h
  items h := items _ _ h
  frames := sound.frames

theorem set {r : ScopeRef} {n : String} {v : Value} (good : w.Good v)
    (may : ∀ c, w.Owner r c → s.MayBind c n) : w.Sound s (store.set r n v) := by
  refine sound.changed (by simp [Store.set]) rfl (store.parent_set r · n v) (fun q m u h => ?_)
    fun l u h => sound.items h
  rcases Store.get?_of_set h with ⟨rfl, rfl, rfl⟩ | old
  · exact .inr ⟨good, may⟩
  · exact .inl old

theorem erase (r : ScopeRef) (n : String) : w.Sound s (store.erase r n) :=
  sound.changed (by simp [Store.erase]) rfl (store.parent_erase r · n)
    (fun _ _ _ h => .inl (Store.get?_of_erase h)) fun _ _ h => sound.items h

theorem newList {items : Array Value} (good : ∀ v ∈ items, w.Good v) :
    w.Sound s (Store.newList items store).2 :=
  sound.changed rfl rfl (fun _ => rfl) (fun _ _ _ h => .inl h) fun _ v h =>
    (Store.items_of_newList h).elim (good v) sound.items

theorem setItems {l : ListRef} {items : Array Value} (good : ∀ v ∈ items, w.Good v) :
    w.Sound s (store.modifyList l fun _ => items) :=
  sound.changed rfl rfl (fun _ => rfl) (fun _ _ _ h => .inl h) fun _ v h =>
    (Store.items_of_modifyList h).elim (good v) sound.items

theorem count (n : Nat) : w.Sound s { store with nextId := n } :=
  sound.changed rfl rfl (fun _ => rfl) (fun _ _ _ h => .inl h) fun _ _ h => sound.items h

theorem newFunction {f : Closure} (closes : w.Closes s f) :
    Sound { w with functions := w.functions + 1 } s (Store.newFunction f store).2 := by
  have later : w.Le { w with functions := w.functions + 1 } :=
    ⟨List.prefix_rfl, Nat.le_succ _, List.prefix_rfl⟩
  exact {
    size := sound.size
    functions := by simp [Store.newFunction, sound.functions]
    global := sound.global
    contained := sound.contained
    parent := fun owner nests => (sound.parent owner nests).mono later
    older := sound.older
    good := fun h => (sound.good h).mono later
    bound := sound.bound
    closes := fun h => (Store.function?_of_newFunction h).elim (fun same => same ▸ closes.mono later)
      fun old => (sound.closes old).mono later
    items := fun h => (sound.items h).mono later
    frames := fun scene hscene f hf => (sound.frames scene hscene f hf).mono later }

/-- The scope that is made next is that of the code object for which it is made. -/
theorem owner_next (c : Code) :
    Owner { w with owners := w.owners ++ [c] } ⟨store.scopes.size⟩ c := by
  unfold Owner
  dsimp only
  rw [← sound.size, List.getElem?_concat_length]

/-- A scope for a code object of the script, with the scope around that it is to have. -/
theorem newScope {c : Code} {p : Option ScopeRef} (contained : s.Contains c)
    (around : ∀ fs, s.Nests c fs → w.Around fs p) :
    Sound { w with owners := w.owners ++ [c] } s (Store.newScope p store).2 := by
  have later := Le.owned w c
  have owners {r : ScopeRef} {d : Code} (owner : Owner { w with owners := w.owners ++ [c] } r d) :
      w.Owner r d ∨ r.index = store.scopes.size ∧ d = c := by
    unfold Owner at owner ⊢
    dsimp only at owner
    rw [← sound.size]
    rcases Nat.lt_trichotomy r.index w.owners.length with below | same | above
    · exact .inl (by rwa [List.getElem?_append_left below] at owner)
    · rw [same, List.getElem?_concat_length] at owner
      exact .inr ⟨same, (Option.some.inj owner).symm⟩
    · have none : (w.owners ++ [c]).length ≤ r.index := by
        rw [List.length_append]
        exact above
      rw [List.getElem?_eq_none none] at owner
      cases owner
  exact {
    size := by simp [Store.newScope, sound.size]
    functions := sound.functions
    global := sound.global.mono later
    contained := fun d hd => (List.mem_append.1 hd).elim (sound.contained d) fun new =>
      List.mem_singleton.1 new ▸ contained
    parent := by
      intro r d fs owner nests
      rw [Store.parent_newScope]
      rcases owners owner with old | ⟨new, rfl⟩
      · rw [if_neg (Nat.ne_of_lt (sound.index_lt old))]
        exact (sound.parent old nests).mono later
      · rw [if_pos new]
        exact (around fs nests).mono later
    older := by
      intro r q hq
      rw [Store.parent_newScope] at hq
      split at hq
      · next new =>
        obtain ⟨fs, nests⟩ := contained.nests
        have place := around fs nests
        subst hq
        cases fs with
        | nil => exact place.elim
        | cons f fs => exact new ▸ sound.index_lt place.1
      · exact sound.older r q hq
    good := fun h => (sound.good (Store.get?_of_newScope h)).mono later
    bound := by
      intro r n v d h owner
      have old := Store.get?_of_newScope h
      rcases owners owner with owner | ⟨new, -⟩
      · exact sound.bound old owner
      · rw [Store.get?_of_size_le (Nat.le_of_eq new.symm)] at old
        cases old
    closes := fun h => (sound.closes h).mono later
    items := fun h => (sound.items h).mono later
    frames := fun scene hscene f hf => (sound.frames scene hscene f hf).mono later }

/-- A scene with frames of the script. -/
theorem shot {stack : Array Frame} (frames : ∀ f ∈ stack, w.Frames s f) :
    Sound { w with film := w.film ++ [⟨store, stack⟩] } s store := by
  have later : w.Le { w with film := w.film ++ [⟨store, stack⟩] } :=
    ⟨List.prefix_rfl, Nat.le_refl _, List.prefix_append _ _⟩
  exact {
    size := sound.size
    functions := sound.functions
    global := sound.global
    contained := sound.contained
    parent := fun owner nests => (sound.parent owner nests).mono later
    older := sound.older
    good := fun h => (sound.good h).mono later
    bound := sound.bound
    closes := fun h => (sound.closes h).mono later
    items := fun h => (sound.items h).mono later
    frames := by
      intro scene hscene f hf
      rcases List.mem_append.1 hscene with old | new
      · exact (sound.frames scene old f hf).mono later
      · rw [List.mem_singleton.1 new] at hf
        exact (frames f hf).mono later }

theorem bindsOwn : s.BindsOwn w.film store :=
  fun _ _ _ _ shown h => sound.bound h (sound.owner_of_activated shown)

end Sound

theorem Faithful.shot {stack : Array Frame} (told : w.Faithful s)
    (sound : Sound { w with film := w.film ++ [⟨store, stack⟩] } s store) :
    Faithful { w with film := w.film ++ [⟨store, stack⟩] } s :=
  told.concat ⟨sound.mirrored, sound.bindsOwn⟩

end Lineage

end Footprint
