import Footprint.Proofs.DefinitionNumbers
import Footprint.Proofs.Shape

set_option autoImplicit false

/-!
Lexical nesting. The functions around a definition are those whose bodies it stands in, innermost
first; the bodies of classes on the way do not count. In a numbered script a definition stands in
one place only, so the functions around it are determined.
-/

namespace Footprint

def Code.function? : Code → Option Function
  | .function f => some f
  | _ => none

namespace Script

/-- The functions around a code object, innermost first. -/
inductive Nests (s : Script) : Code → List Function → Prop
  | top : s.Nests (.top s) []
  | inner {c d : Code} {fs : List Function} :
      s.Nests c fs → c.Defines d → s.Nests d (c.function?.toList ++ fs)

variable {s : Script} {c d : Code} {fs gs : List Function}

theorem Nests.contains (h : s.Nests c fs) : s.Contains c := by
  induction h with
  | top => exact .top
  | inner _ defines ih => exact .inner ih defines

theorem Contains.nests (h : s.Contains c) : ∃ fs, s.Nests c fs := by
  induction h with
  | top => exact ⟨[], .top⟩
  | inner _ defines ih =>
    obtain ⟨fs, hfs⟩ := ih
    exact ⟨_, .inner hfs defines⟩

/-- The functions around the innermost one are the other ones. -/
theorem Nests.outward {f : Function} (h : s.Nests c (f :: fs)) : s.Nests (.function f) fs := by
  generalize hgs : f :: fs = gs at h
  induction h with
  | top => cases hgs
  | @inner c d gs outer _ ih =>
    cases c with
    | function g =>
      cases hgs
      exact outer
    | top | classBody => exact ih hgs

/-! ### Definitions stand in one place -/

/-- A definition that is a node of two owners would be counted twice. -/
theorem owner_unique (numbered : s.IsNumbered) {n : Node} {e : Code} (he : n.code? = some e)
    (hc : (c, n) ∈ s.owned) (hd : (d, n) ∈ s.owned) : c = d := by
  obtain ⟨k, codes⟩ := numbered
  have distinct : (s.owned.filterMap fun p => p.2.code?.map Code.id).Nodup := by
    have all : s.owned.filterMap (fun p => p.2.code?.map Code.id) = (Node.script s).codes := by
      unfold Node.codes
      rw [← Node.map_snd_owned (.top s), List.filterMap_map]
      rfl
    rw [all, codes]
    exact List.nodup_range'
  have apart := List.pairwise_filterMap.1 distinct
  let R (p q : Code × Node) : Prop := ∀ x, p.2.code?.map Code.id = some x →
    ∀ y, q.2.code?.map Code.id = some y → x ≠ y
  have : Std.Symm R := ⟨fun p q h x hx y hy => (h y hy x hx).symm⟩
  by_contra different
  have other : (c, n) ≠ (d, n) := fun same => different (congrArg Prod.fst same)
  have twice := List.Pairwise.forall (R := R) apart hc hd other
  exact twice e.id (by rw [he]; rfl) e.id (by rw [he]; rfl) rfl

theorem Contains.definer_unique (numbered : s.IsNumbered) (hc : s.Contains c) (hd : s.Contains d)
    {e : Code} (hce : c.Defines e) (hde : d.Defines e) : c = d := by
  cases hce with
  | function owns =>
    cases hde with
    | function owns' => exact owner_unique numbered rfl (hc.owns owns) (hd.owns owns')
  | classBody owns =>
    cases hde with
    | classBody owns' => exact owner_unique numbered rfl (hc.owns owns) (hd.owns owns')

/-- The functions around a definition are those around the code object that it belongs to, and that
one itself if it is a function. -/
theorem Nests.of_defines (numbered : s.IsNumbered) (hc : s.Contains c) (defines : c.Defines d)
    (h : s.Nests d fs) : ∃ gs, s.Nests c gs ∧ fs = c.function?.toList ++ gs := by
  cases h with
  | top => nomatch defines
  | inner outer defines' =>
    obtain rfl := outer.contains.definer_unique numbered hc defines' defines
    exact ⟨_, outer, rfl⟩

theorem Nests.unique (numbered : s.IsNumbered) (h : s.Nests c fs) (h' : s.Nests c gs) :
    fs = gs := by
  induction h generalizing gs with
  | top =>
    cases h' with
    | top => rfl
    | inner _ defines => nomatch defines
  | inner outer defines ih =>
    obtain ⟨gs, outer', rfl⟩ := h'.of_defines numbered outer.contains defines
    rw [ih outer']

end Script

/-! ### Names that are bound -/

/-- What the statement is done to. -/
def Stmt.targets : Stmt → List Expr
  | .delete targets _ | .assign targets _ _ => targets
  | .augment target .. | .annotate target .. | .forLoop target .. => [target]
  | _ => []

/-- A statement of the code object binds the name. -/
def Code.Binds (c : Code) (name : String) : Prop := ∃ s, c.Owns s ∧ name ∈ s.assigned

/-- A statement of the code object binds each of the names. -/
def Code.BindsAll (c : Code) (names : List String) : Prop := ∀ n ∈ names, c.Binds n

theorem mem_boundNamesOf {es : List Expr} {n : String} :
    n ∈ Expr.boundNamesOf es ↔ ∃ e ∈ es, n ∈ e.boundNames := by
  induction es with
  | nil => simp [Expr.boundNamesOf]
  | cons e es ih => simp [Expr.boundNamesOf, ih]

theorem assignedIn_eq (ss : List Stmt) : assignedIn ss = ss.flatMap Stmt.assigned := by
  induction ss with
  | nil => rfl
  | cons t ts ih => rw [assignedIn, ih, List.flatMap_cons]

theorem names_of_handler {handlers : List Handler} {h : Handler} (hh : h ∈ handlers)
    {name : String} (hname : h.name = some name) : name ∈ assignedInHandlers handlers := by
  induction handlers with
  | nil => cases hh
  | cons g gs ih =>
    cases g with
    | clause kind bound body q =>
      simp only [assignedInHandlers, List.mem_append]
      rcases List.mem_cons.1 hh with rfl | hh
      · exact .inl (Option.mem_toList.2 hname)
      · exact .inr (.inr (ih hh))

theorem assigned_of_handler {handlers : List Handler} {h : Handler} (hh : h ∈ handlers) :
    assignedIn h.body ⊆ assignedInHandlers handlers := by
  induction handlers with
  | nil => cases hh
  | cons g gs ih =>
    cases g with
    | clause kind name body q =>
      intro n hn
      simp only [assignedInHandlers, List.mem_append]
      rcases List.mem_cons.1 hh with rfl | hh
      · exact .inr (.inl hn)
      · exact .inr (.inr (ih hh hn))

namespace Code

variable {c : Code}

theorem Owns.binds {s : Stmt} (h : c.Owns s) {names : List String} (hn : names ⊆ s.assigned) :
    c.BindsAll names := fun _ hm => ⟨s, h, hn hm⟩

theorem BindsAll.target {es : List Expr} (h : c.BindsAll (Expr.boundNamesOf es)) {e : Expr}
    (he : e ∈ es) : c.BindsAll e.boundNames := fun n hn => h n (mem_boundNamesOf.2 ⟨e, he, hn⟩)

/-- The expression is a target of a statement that belongs to the code object, or an item of such a
target. -/
inductive Targets (c : Code) : Expr → Prop
  | stmt {s : Stmt} {e : Expr} : c.Owns s → e ∈ s.targets → Targets c e
  | tuple {items : List Expr} {p : Position} {e : Expr} :
      Targets c (.tuple items p) → e ∈ items → Targets c e
  | list {items : List Expr} {p : Position} {e : Expr} :
      Targets c (.list items p) → e ∈ items → Targets c e

theorem Owns.boundNames {s : Stmt} {e : Expr} (h : c.Owns s) (he : e ∈ s.targets) :
    c.BindsAll e.boundNames := by
  cases s with
  | delete targets | assign targets => exact BindsAll.target (h.binds fun _ hn => hn) he
  | augment target | annotate target =>
    obtain rfl := List.mem_singleton.1 he
    exact h.binds fun _ hn => hn
  | forLoop target =>
    obtain rfl := List.mem_singleton.1 he
    exact h.binds fun _ hn => List.mem_append_left _ hn
  | _ => cases he

/-- The names of a target are bound. -/
theorem Targets.binds {e : Expr} (h : c.Targets e) : c.BindsAll e.boundNames := by
  induction h with
  | stmt owns he => exact owns.boundNames he
  | tuple _ he ih | list _ he ih => exact BindsAll.target ih he

theorem binds_of_clause {h : Handler} (hh : c.OwnsClause h) {name : String}
    (hname : h.name = some name) : c.Binds name := by
  obtain ⟨body, handlers, orelse, final, p, owns, hmem⟩ := hh
  refine ⟨_, owns, ?_⟩
  simp only [Stmt.assigned, List.mem_append]
  exact .inr (.inl (names_of_handler hmem hname))

end Code

/-- What is bound in a block of a statement is bound by the statement. -/
theorem Stmt.assigned_of_block {s t : Stmt} {b : List Stmt} (hb : b ∈ s.blocks) (ht : t ∈ b) :
    t.assigned ⊆ s.assigned := by
  have inside : t.assigned ⊆ assignedIn b := by
    rw [assignedIn_eq]
    exact fun n hn => List.mem_flatMap.2 ⟨t, ht, hn⟩
  refine List.Subset.trans inside ?_
  intro n hn
  cases s with
  | forLoop | whileLoop | cond | withBlock =>
    simp only [blocks, List.mem_cons, List.not_mem_nil, or_false] at hb
    rcases hb with rfl | rfl <;> simp [assigned, hn]
  | tryBlock body handlers orelse final p =>
    simp only [blocks, List.mem_append, List.mem_cons, List.mem_map, List.not_mem_nil,
      or_false] at hb
    simp only [assigned, List.mem_append]
    rcases hb with (rfl | ⟨h, hh, rfl⟩) | rfl | rfl
    · exact .inl hn
    · exact .inr (.inl (assigned_of_handler hh hn))
    · exact .inr (.inr (.inl hn))
    · exact .inr (.inr (.inr hn))
  | _ => cases hb

theorem Function.mem_body_of_mem_runBody {f : Function} {t : Stmt} (h : t ∈ f.runBody) :
    t ∈ f.body := by
  unfold Function.runBody at h
  split at h
  · next first rest heq =>
    rw [heq]
    split at h
    · exact List.mem_cons_of_mem _ h
    · exact h
  · cases h

/-- What a statement of the function binds is bound in its body. -/
theorem Function.assignedIn_of_owns {f : Function} {t : Stmt} (h : (Code.function f).Owns t) :
    t.assigned ⊆ assignedIn f.body := by
  induction h with
  | body ht =>
    rw [assignedIn_eq]
    exact fun n hn => List.mem_flatMap.2 ⟨_, f.mem_body_of_mem_runBody ht, hn⟩
  | block _ hb ht ih => exact List.Subset.trans (Stmt.assigned_of_block hb ht) ih

/-- The names stored with the function are those that it binds. -/
def Function.IsBound (f : Function) : Prop := f.head.bound = .ofFunction f.head.params f.body

/-- A name that a function binds is its own unless it is declared to live elsewhere. -/
theorem Function.IsBound.local_of_binds {f : Function} (h : f.IsBound) {n : String}
    (binds : (Code.function f).Binds n) (global : f.head.bound.globals.contains n = false)
    (nonlocal : f.head.bound.nonlocals.contains n = false) : n ∈ f.head.bound.locals := by
  obtain ⟨t, owns, hn⟩ := binds
  have inside := Function.assignedIn_of_owns owns hn
  unfold IsBound at h
  rw [h] at global nonlocal ⊢
  simp only [Bound.ofFunction] at global nonlocal ⊢
  rw [List.mem_filter, mem_nameSet, global, nonlocal]
  exact ⟨List.mem_append_right _ inside, rfl⟩

theorem Script.Contains.isBound {s : Script} (bound : (Node.script s).IsBound) {f : Function}
    (h : s.Contains (.function f)) : f.IsBound := by
  cases h with
  | inner outer defines =>
    cases defines with
    | function owns =>
      apply bound
      rw [← Node.map_snd_owned (.top s)]
      exact List.mem_map_of_mem (outer.owns owns)

end Footprint
