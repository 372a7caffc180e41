import Footprint.Proofs.Nesting

set_option autoImplicit false

/-!
Which names a function has for its own, in terms of the statements that belong to it. What is
collected from a body goes through the blocks of its statements; a name is collected if and only if
some statement, or except clause, that belongs to the function names it.
-/

namespace Footprint

/-- Assigning to the target assigns to the name. -/
inductive Expr.Names (n : String) : Expr → Prop
  | name (p : Position) : Names n (.name n p)
  | tuple {items : List Expr} {e : Expr} (p : Position) : e ∈ items → Names n e →
      Names n (.tuple items p)
  | list {items : List Expr} {e : Expr} (p : Position) : e ∈ items → Names n e →
      Names n (.list items p)

/-- The statement binds or unbinds the name itself: what its blocks do does not count. -/
inductive Stmt.Names (n : String) : Stmt → Prop
  | function {head : FunctionHead} (body : List Stmt) : head.name = n → Names n (.function head body)
  | classDef {head : ClassHead} (body : List Stmt) : head.name = n → Names n (.classDef head body)
  | assign {targets : List Expr} {t : Expr} (value : Expr) (p : Position) : t ∈ targets →
      t.Names n → Names n (.assign targets value p)
  | delete {targets : List Expr} {t : Expr} (p : Position) : t ∈ targets → t.Names n →
      Names n (.delete targets p)
  | augment {target : Expr} (op : BinaryOp) (value : Expr) (p : Position) : target.Names n →
      Names n (.augment target op value p)
  | annotate {target : Expr} (hint : Expr) (value : Option Expr) (p : Position) :
      target.Names n → Names n (.annotate target hint value p)
  | forLoop {target : Expr} (iter : Expr) (body orelse : List Stmt) (p : Position) :
      target.Names n → Names n (.forLoop target iter body orelse p)
  | withBlock {items : List WithItem} {i : WithItem} {t : Expr} (body : List Stmt) (p : Position) :
      i ∈ items → i.target = some t → t.Names n → Names n (.withBlock items body p)
  | importNames {names : List Import} {a : Import} (p : Position) : a ∈ names → a.moduleName = n →
      Names n (.importNames names p)
  | importFrom {names : List Import} {a : Import} (source : String) (p : Position) : a ∈ names →
      a.memberName? = some n → Names n (.importFrom source names p)

/-- What belongs to the code object binds or unbinds the name. -/
inductive Code.Names (c : Code) (n : String) : Prop
  | stmt {s : Stmt} : c.Owns s → s.Names n → Names c n
  | clause {h : Handler} : c.OwnsClause h → h.name = some n → Names c n

/-- A statement that belongs to the code object declares the name global. -/
def Code.DeclaresGlobal (c : Code) (n : String) : Prop :=
  ∃ names p, c.Owns (.globalDecl names p) ∧ n ∈ names

/-- A statement that belongs to the code object declares the name nonlocal. -/
def Code.DeclaresNonlocal (c : Code) (n : String) : Prop :=
  ∃ names p, c.Owns (.nonlocalDecl names p) ∧ n ∈ names

/-- The names of the function are those that its text has: the parameters and what is bound in its
body are local, unless it is declared to live elsewhere. -/
structure Function.NamesAsText (f : Function) : Prop where
  locals {n : String} : n ∈ f.head.bound.locals ↔
    (n ∈ f.head.params.map (·.name) ∨ (Code.function f).Names n) ∧
      n ∉ f.head.bound.globals ∧ n ∉ f.head.bound.nonlocals
  globals {n : String} : n ∈ f.head.bound.globals ↔ (Code.function f).DeclaresGlobal n
  nonlocals {n : String} : n ∈ f.head.bound.nonlocals ↔ (Code.function f).DeclaresNonlocal n

variable {n : String}

theorem mem_boundNames_iff {e : Expr} : n ∈ e.boundNames ↔ e.Names n := by
  constructor
  · intro h
    match e with
    | .name id p =>
      obtain rfl := List.mem_singleton.1 h
      exact .name p
    | .tuple items p =>
      obtain ⟨t, ht, hn⟩ := mem_boundNamesOf.1 h
      exact .tuple p ht (mem_boundNames_iff.1 hn)
    | .list items p =>
      obtain ⟨t, ht, hn⟩ := mem_boundNamesOf.1 h
      exact .list p ht (mem_boundNames_iff.1 hn)
  · intro h
    induction h with
    | name p => exact List.mem_cons_self
    | tuple p ht _ ih => exact mem_boundNamesOf.2 ⟨_, ht, ih⟩
    | list p ht _ ih => exact mem_boundNamesOf.2 ⟨_, ht, ih⟩
termination_by sizeOf e

theorem mem_boundNamesOf_iff {es : List Expr} :
    n ∈ Expr.boundNamesOf es ↔ ∃ e ∈ es, e.Names n := by
  simp only [mem_boundNamesOf, mem_boundNames_iff]

theorem Stmt.Names.assigned {s : Stmt} (h : s.Names n) : n ∈ s.assigned := by
  cases h with
  | function body same | classDef body same => exact List.mem_singleton.2 same.symm
  | assign value p ht hn | delete p ht hn => exact mem_boundNamesOf_iff.2 ⟨_, ht, hn⟩
  | augment op value p hn => exact mem_boundNames_iff.2 hn
  | annotate hint value p hn => exact mem_boundNames_iff.2 hn
  | forLoop iter body orelse p hn => exact List.mem_append_left _ (mem_boundNames_iff.2 hn)
  | withBlock body p hi target hn =>
    refine List.mem_append_left _ (List.mem_flatMap.2 ⟨_, hi, ?_⟩)
    rw [target]
    exact mem_boundNames_iff.2 hn
  | importNames p ha same => exact List.mem_map.2 ⟨_, ha, same⟩
  | importFrom source p ha same => exact List.mem_filterMap.2 ⟨_, ha, same⟩

/-! ### Going through blocks -/

theorem Stmt.sizeOf_lt_of_block {s t : Stmt} {b : List Stmt} (hb : b ∈ s.blocks) (ht : t ∈ b) :
    sizeOf t < sizeOf s := by
  have smaller := List.sizeOf_lt_of_mem ht
  suffices sizeOf b < sizeOf s from Nat.lt_trans smaller this
  cases s with
  | forLoop | whileLoop | cond | withBlock =>
    simp only [blocks, List.mem_cons, List.not_mem_nil, or_false] at hb
    rcases hb with rfl | rfl <;> simp <;> omega
  | tryBlock body handlers orelse final p =>
    simp only [blocks, List.mem_append, List.mem_cons, List.mem_map, List.not_mem_nil,
      or_false] at hb
    rcases hb with (rfl | ⟨⟨kind, name, body, q⟩, hmem, rfl⟩) | rfl | rfl
    · simp; omega
    · have := List.sizeOf_lt_of_mem hmem
      simp [Handler.body] at this ⊢
      omega
    · simp; omega
    · simp; omega
  | _ => cases hb

/-- Induction over a statement and those in its blocks. -/
theorem Stmt.byBlocks {P : Stmt → Prop}
    (step : ∀ s : Stmt, (∀ b ∈ s.blocks, ∀ t ∈ b, P t) → P s) (s : Stmt) : P s := by
  induction hk : sizeOf s using Nat.strongRecOn generalizing s with
  | ind k ih =>
    refine step s fun b hb t ht => ih (sizeOf t) ?_ t rfl
    exact hk ▸ sizeOf_lt_of_block hb ht

theorem handler_of_assignedInHandlers {handlers : List Handler}
    (h : n ∈ assignedInHandlers handlers) :
    ∃ hd ∈ handlers, hd.name = some n ∨ n ∈ assignedIn hd.body := by
  induction handlers with
  | nil => cases h
  | cons hd hs ih =>
    cases hd with
    | clause kind name body q =>
      simp only [assignedInHandlers, List.mem_append] at h
      rcases h with named | inside | h
      · exact ⟨_, List.mem_cons_self, .inl (Option.mem_toList.1 named)⟩
      · exact ⟨_, List.mem_cons_self, .inr inside⟩
      · obtain ⟨hd, hmem, found⟩ := ih h
        exact ⟨hd, List.mem_cons_of_mem _ hmem, found⟩

/-- A name that is collected from a statement is named by it, by an except clause of it, or in one
of its blocks. -/
theorem Stmt.names_or_inside {s : Stmt} (h : n ∈ s.assigned) :
    s.Names n ∨
    (∃ body handlers orelse final p, s = .tryBlock body handlers orelse final p ∧
      ∃ hd ∈ handlers, hd.name = some n) ∨
    ∃ b ∈ s.blocks, n ∈ assignedIn b := by
  cases s with
  | function head body => exact .inl (.function body (List.mem_singleton.1 h).symm)
  | classDef head body => exact .inl (.classDef body (List.mem_singleton.1 h).symm)
  | assign targets value p =>
    obtain ⟨t, ht, hn⟩ := mem_boundNamesOf_iff.1 h
    exact .inl (.assign value p ht hn)
  | delete targets p =>
    obtain ⟨t, ht, hn⟩ := mem_boundNamesOf_iff.1 h
    exact .inl (.delete p ht hn)
  | augment target op value p => exact .inl (.augment op value p (mem_boundNames_iff.1 h))
  | annotate target hint value p =>
    exact .inl (.annotate hint value p (mem_boundNames_iff.1 h))
  | forLoop target iter body orelse p =>
    simp only [assigned, List.mem_append] at h
    rcases h with hn | hn | hn
    · exact .inl (.forLoop iter body orelse p (mem_boundNames_iff.1 hn))
    · exact .inr (.inr ⟨body, by simp [blocks], hn⟩)
    · exact .inr (.inr ⟨orelse, by simp [blocks], hn⟩)
  | whileLoop test body orelse p | cond test body orelse p =>
    simp only [assigned, List.mem_append] at h
    rcases h with hn | hn
    · exact .inr (.inr ⟨body, by simp [blocks], hn⟩)
    · exact .inr (.inr ⟨orelse, by simp [blocks], hn⟩)
  | withBlock items body p =>
    simp only [assigned, List.mem_append, List.mem_flatMap] at h
    rcases h with ⟨i, hi, hn⟩ | hn
    · cases target : i.target with
      | none =>
        rw [target] at hn
        cases hn
      | some t =>
        rw [target] at hn
        exact .inl (.withBlock body p hi target (mem_boundNames_iff.1 hn))
    · exact .inr (.inr ⟨body, by simp [blocks], hn⟩)
  | tryBlock body handlers orelse final p =>
    simp only [assigned, List.mem_append] at h
    rcases h with hn | hn | hn | hn
    · exact .inr (.inr ⟨body, by simp [blocks], hn⟩)
    · obtain ⟨hd, hmem, named | inside⟩ := handler_of_assignedInHandlers hn
      · exact .inr (.inl ⟨body, handlers, orelse, final, p, rfl, hd, hmem, named⟩)
      · refine .inr (.inr ⟨hd.body, ?_, inside⟩)
        simp only [blocks, List.cons_append, List.mem_cons, List.mem_append, List.mem_map]
        exact .inr (.inl ⟨hd, hmem, rfl⟩)
    · exact .inr (.inr ⟨orelse, by simp [blocks], hn⟩)
    · exact .inr (.inr ⟨final, by simp [blocks], hn⟩)
  | importNames names p =>
    obtain ⟨a, ha, same⟩ := List.mem_map.1 h
    exact .inl (.importNames p ha same)
  | importFrom source names p =>
    obtain ⟨a, ha, same⟩ := List.mem_filterMap.1 h
    exact .inl (.importFrom source p ha same)
  | ret | raise | assert | globalDecl | nonlocalDecl | expr | pass | brk | cont => cases h

namespace Code

variable {c : Code}

theorem Owns.names {s : Stmt} (owns : c.Owns s) (h : n ∈ s.assigned) : c.Names n := by
  induction s using Stmt.byBlocks with
  | step s ih =>
    rcases s.names_or_inside h with named | ⟨body, handlers, orelse, final, p, rfl, hd, hmem, named⟩ |
      ⟨b, hb, inside⟩
    · exact .stmt owns named
    · exact .clause ⟨body, handlers, orelse, final, p, owns, hmem⟩ named
    · rw [assignedIn_eq] at inside
      obtain ⟨t, ht, hn⟩ := List.mem_flatMap.1 inside
      exact ih b hb t ht (.block owns hb ht) hn

theorem binds_iff_names : c.Binds n ↔ c.Names n := by
  constructor
  · rintro ⟨s, owns, hn⟩
    exact owns.names hn
  · intro h
    cases h with
    | stmt owns named => exact ⟨_, owns, named.assigned⟩
    | clause owns named => exact binds_of_clause owns named

end Code

/-! ### Declarations -/

theorem declaredIn_eq (declares : Stmt → List String) (ss : List Stmt) :
    declaredIn declares ss = ss.flatMap (Stmt.declared declares) := by
  induction ss with
  | nil => rfl
  | cons t ts ih => rw [declaredIn, ih, List.flatMap_cons]

theorem mem_declaredInHandlers {declares : Stmt → List String} {handlers : List Handler} :
    n ∈ declaredInHandlers declares handlers ↔
      ∃ hd ∈ handlers, n ∈ declaredIn declares hd.body := by
  induction handlers with
  | nil => simp [declaredInHandlers]
  | cons hd hs ih =>
    cases hd with
    | clause kind name body q => simp [declaredInHandlers, Handler.body, ih]

/-- What is declared in a statement: what it declares itself or what is declared in its blocks. -/
theorem Stmt.mem_declared {declares : Stmt → List String} {s : Stmt}
    (compound : s.blocks ≠ [] → declares s = []) :
    n ∈ s.declared declares ↔ n ∈ declares s ∨ ∃ b ∈ s.blocks, n ∈ declaredIn declares b := by
  cases s with
  | tryBlock body handlers orelse final p =>
    rw [compound (List.cons_ne_nil _ _)]
    simp only [declared, blocks, List.mem_append, mem_declaredInHandlers]
    simp [or_and_right, exists_or, or_assoc]
  | forLoop | whileLoop | cond | withBlock =>
    rw [compound (List.cons_ne_nil _ _)]
    simp [declared, blocks]
  | _ => simp [declared, blocks]

namespace Code

variable {c : Code} {declares : Stmt → List String}

theorem Owns.exists_declares {s : Stmt} (compound : ∀ s : Stmt, s.blocks ≠ [] → declares s = [])
    (owns : c.Owns s) (h : n ∈ s.declared declares) : ∃ t, c.Owns t ∧ n ∈ declares t := by
  induction s using Stmt.byBlocks with
  | step s ih =>
    rcases (Stmt.mem_declared (compound s)).1 h with own | ⟨b, hb, inside⟩
    · exact ⟨s, owns, own⟩
    · rw [declaredIn_eq] at inside
      obtain ⟨t, ht, hn⟩ := List.mem_flatMap.1 inside
      exact ih b hb t ht (.block owns hb ht) hn

end Code

namespace Function

variable {f : Function} {declares : Stmt → List String}

/-- Statements of the body belong to the function, unless they are its docstring. -/
theorem owns_or_docstring {t : Stmt} (h : t ∈ f.body) :
    (Code.function f).Owns t ∨ t.docstring?.isSome = true := by
  by_cases docstring : t.docstring?.isSome = true
  · exact .inr docstring
  · refine .inl (.body ?_)
    change t ∈ f.runBody
    unfold runBody
    cases body : f.body with
    | nil =>
      rw [body] at h
      cases h
    | cons first rest =>
      rw [body] at h
      dsimp only
      split
      · next own =>
        rcases List.mem_cons.1 h with rfl | h
        · exact absurd own docstring
        · exact h
      · exact h

theorem eq_expr_of_docstring {t : Stmt} (h : t.docstring?.isSome = true) : ∃ e p, t = .expr e p := by
  unfold Stmt.docstring? at h
  split at h
  · exact ⟨_, _, rfl⟩
  · cases h

/-- What is declared in the body of a function is what statements that belong to it declare. -/
theorem mem_declaredIn_body (compound : ∀ s : Stmt, s.blocks ≠ [] → declares s = [])
    (plain : ∀ e p, declares (.expr e p) = []) :
    n ∈ declaredIn declares f.body ↔ ∃ t, (Code.function f).Owns t ∧ n ∈ declares t := by
  rw [declaredIn_eq, List.mem_flatMap]
  constructor
  · rintro ⟨t, ht, hn⟩
    rcases owns_or_docstring ht with owns | docstring
    · exact owns.exists_declares compound hn
    · obtain ⟨e, p, rfl⟩ := eq_expr_of_docstring docstring
      have none : n ∈ declares (.expr e p) := hn
      rw [plain] at none
      cases none
  · rintro ⟨t, owns, hn⟩
    have own : n ∈ t.declared declares := (Stmt.mem_declared (compound t)).2 (.inl hn)
    clear hn
    -- outward, from the statement to the one of the body that it stands in
    induction owns with
    | body ht => exact ⟨_, f.mem_body_of_mem_runBody ht, own⟩
    | @block s t b _ hb ht ih =>
      refine ih ((Stmt.mem_declared (compound s)).2 (.inr ⟨b, hb, ?_⟩))
      rw [declaredIn_eq]
      exact List.mem_flatMap.2 ⟨t, ht, own⟩

theorem mem_assignedIn_body : n ∈ assignedIn f.body ↔ (Code.function f).Names n := by
  constructor
  · intro h
    rw [assignedIn_eq] at h
    obtain ⟨t, ht, hn⟩ := List.mem_flatMap.1 h
    rcases owns_or_docstring ht with owns | docstring
    · exact owns.names hn
    · obtain ⟨e, p, rfl⟩ := eq_expr_of_docstring docstring
      cases hn
  · intro h
    obtain ⟨t, owns, hn⟩ := Code.binds_iff_names.2 h
    exact assignedIn_of_owns owns hn

/-- The names stored with a function are those of its text. -/
theorem IsBound.namesAsText (h : f.IsBound) : f.NamesAsText := by
  have bound : f.head.bound = .ofFunction f.head.params f.body := h
  constructor
  · intro n
    rw [bound]
    simp only [Bound.ofFunction, List.mem_filter, mem_nameSet, List.mem_append,
      mem_assignedIn_body, Bool.and_eq_true, Bool.not_eq_true', List.contains_eq_mem,
      decide_eq_false_iff_not]
  · intro n
    rw [bound]
    simp only [Bound.ofFunction, mem_nameSet]
    rw [mem_declaredIn_body (fun s => by cases s <;> simp [Stmt.blocks, Stmt.globalNames])
      fun _ _ => rfl]
    constructor
    · rintro ⟨t, owns, hn⟩
      cases t with
      | globalDecl names p => exact ⟨names, p, owns, hn⟩
      | _ => cases hn
    · rintro ⟨names, p, owns, hn⟩
      exact ⟨_, owns, hn⟩
  · intro n
    rw [bound]
    simp only [Bound.ofFunction, mem_nameSet]
    rw [mem_declaredIn_body (fun s => by cases s <;> simp [Stmt.blocks, Stmt.nonlocalNames])
      fun _ _ => rfl]
    constructor
    · rintro ⟨t, owns, hn⟩
      cases t with
      | nonlocalDecl names p => exact ⟨names, p, owns, hn⟩
      | _ => cases hn
    · rintro ⟨names, p, owns, hn⟩
      exact ⟨_, owns, hn⟩

/-- What belongs to the function binds no names but those in its three sets. -/
theorem NamesAsText.listed (h : f.NamesAsText) (binds : (Code.function f).Binds n) :
    n ∈ f.head.bound.locals ∨ n ∈ f.head.bound.globals ∨ n ∈ f.head.bound.nonlocals := by
  by_cases global : n ∈ f.head.bound.globals
  · exact .inr (.inl global)
  · by_cases nonlocal : n ∈ f.head.bound.nonlocals
    · exact .inr (.inr nonlocal)
    · exact .inl (h.locals.2 ⟨.inr (Code.binds_iff_names.1 binds), global, nonlocal⟩)

end Function

end Footprint
