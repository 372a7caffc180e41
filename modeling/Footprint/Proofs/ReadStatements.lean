import Footprint.Proofs.WrittenStatements

set_option autoImplicit false

/-!
The parser reads simple statements back from the tokens they are written with.
-/

namespace Footprint

open Token Grammar

/-! ### What places do not change -/

namespace Expr

mutual

theorem isAssignable_unplaced : (e : Expr) → e.unplaced.isAssignable = e.isAssignable
  | tuple items _ | list items _ => areAssignable_unplacedAll items
  | name .. | const .. | binary .. | unary .. | logic .. | compare .. | call .. | member ..
  | subscript .. | choice .. => rfl

theorem areAssignable_unplacedAll :
    (es : List Expr) → areAssignable (unplacedAll es) = areAssignable es
  | [] => rfl
  | e :: es => congrArg₂ _ (isAssignable_unplaced e) (areAssignable_unplacedAll es)

end

theorem isSingleTarget_unplaced (e : Expr) : e.unplaced.isSingleTarget = e.isSingleTarget := by
  cases e <;> rfl

end Expr

namespace Parser

/-! ### Parsers of parts -/

namespace Takes

variable {α β : Type} {ks ks' : List Kind} {F G : Kind → Prop} {Q : α → Prop}

theorem mono {x : Parse α} (h : Takes x ks F Q) {G : Kind → Prop} {R : α → Prop}
    (follow : ∀ k, G k → F k) (result : ∀ a, Q a → R a) : Takes x ks G R := by
  intro c p t rest hp ht before
  obtain ⟨a, c', read, after, hQ⟩ := h hp (follow _ ht) before
  exact ⟨a, c', read, after, result a hQ⟩

theorem map {x : Parse α} {f : α → β} {R : β → Prop} (h : Takes x ks F Q)
    (result : ∀ a, Q a → R (f a)) : Takes (f <$> x) ks F R := by
  intro c p t rest hp ht before
  obtain ⟨a, c', read, after, hQ⟩ := h hp ht before
  refine ⟨f a, c', ?_, after, result a hQ⟩
  change (x c >>= fun r => .ok (f r.1, r.2)) = _
  rw [read]
  rfl

/-- What may be missing is read if its mark is ahead. -/
theorem following {m : Mark} {x : Parse α} {o : Option (List Kind)} {R : Option α → Prop}
    (other : (Kind.mark m).isMark .endOfFile = false) (missing : o = none → ∀ k, F k → k ≠ .mark m)
    (some : ∀ ks, o = some ks → Takes x ks F fun a => R (some a)) (none : o = none → R none) :
    Takes (following m x) (optional (.mark m) o) F R := by
  unfold Parser.following
  cases o with
  | none => exact .accept_not (missing rfl) (.pure (none rfl))
  | some ks => exact .accept other ((some ks rfl).map fun _ h => h)

/-- A statement ends at the end of a line. -/
theorem atStatementEnd {x y : Parse α} (found : ∀ k, F k → ks.headD k = .mark .newline)
    (hx : Takes x ks F Q) : Takes (do if ← isAtStatementEnd then x else y) ks F Q := by
  intro c p t rest hp ht before
  obtain ⟨a, c', read, after, hQ⟩ := hx hp ht before
  refine ⟨a, c', ?_, after, hQ⟩
  change (if _ then x else y) c = _
  rw [front_kind hp before, found _ ht]
  exact read

/-- A statement does not end where an expression begins. -/
theorem notAtStatementEnd {x y : Parse α} (begins : ∀ k, F k → opening (ks.headD k) ≠ 0)
    (hy : Takes y ks F Q) : Takes (do if ← isAtStatementEnd then x else y) ks F Q := by
  intro c p t rest hp ht before
  obtain ⟨a, c', read, after, hQ⟩ := hy hp ht before
  refine ⟨a, c', ?_, after, hQ⟩
  have other {m : Mark} (closes : opening (.mark m) = 0) : c.front.kind.isMark m = false := by
    rw [Bool.eq_false_iff]
    intro found
    rw [front_kind hp before] at found
    exact begins _ ht (Kind.isMark_iff.1 found ▸ closes)
  change (if (c.front.kind.isMark .newline || c.front.kind.isMark (.symbol .semicolon) ||
    c.front.kind.isMark .endOfFile) = true then x else y) c = _
  rw [other rfl, other rfl, other rfl]
  exact read

end Takes

/-- What follows a part that may be missing. -/
theorem head_optional {P : Kind → Prop} {before k : Kind} (o : Option (List Kind))
    (some : P before) (none : P k) : P ((optional before o).headD k) := by
  cases o with
  | none => exact none
  | some ks => exact some

/-- An expression that may be missing. -/
theorem takes_expression {m : Mark} {x : Parse Expr} {o : Option Expr} {F : Kind → Prop}
    (other : (Kind.mark m).isMark .endOfFile = false) (missing : ∀ k, F k → k ≠ .mark m)
    (some : ∀ e, o = some e → Takes x e.tokens F (·.unplaced = e.unplaced)) :
    Takes (following m x) (optional (.mark m) (o.map Expr.tokens)) F
      (·.map Expr.unplaced = o.map Expr.unplaced) := by
  refine .following other (fun _ => missing) (fun ks hks => ?_) fun h => ?_
  · obtain ⟨e, rfl, rfl⟩ := Option.map_eq_some_iff.1 hks
    exact (some e rfl).mono (fun _ hk => hk) fun a ha => congrArg Option.some ha
  · rw [Option.map_eq_none_iff.1 h]

theorem takes_identifier {s : String} {F : Kind → Prop} :
    Takes identifier [.name s] F (· = s) := by
  have read : Takes (identifier >>= pure) [.name s] F (· = s) := .identifier (.pure rfl)
  rwa [bind_pure] at read

theorem takes_alias {o : Option String} {F : Kind → Prop} (missing : ∀ k, F k → k ≠ word .asKw) :
    Takes (following (.keyword .asKw) identifier)
      (optional (word .asKw) (o.map fun s => [.name s])) F (· = o) := by
  refine .following rfl (fun _ => missing) (fun ks hks => ?_) fun h => ?_
  · obtain ⟨s, rfl, rfl⟩ := Option.map_eq_some_iff.1 hks
    exact takes_identifier.mono (fun _ hk => hk) fun a ha => congrArg some ha
  · exact (Option.map_eq_none_iff.1 h).symm

/-- What stands at the end of a line. -/
abbrev AtEnd (k : Kind) : Prop := k = .mark .newline

theorem takes_moreNames (names : List String) :
    Parses moreNames 1 (names.flatMap fun s => [sym .comma, .name s]) AtEnd (· = names) := by
  induction names with
  | nil => exact .next fun n _ => .accept_not (by rintro _ rfl; simp) (.pure rfl)
  | cons s names ih =>
    refine .next fun n hn => .accept rfl (.identifier ?_)
    simp only [List.flatMap_cons, List.length_append, List.length_cons, List.length_nil] at hn
    exact .bindLast (ih n (by omega)) (fun _ h => .pure (congrArg (s :: ·) h)) fun _ hk => hk

/-- A list without its first member, each of the others after a comma. -/
theorem listed_map {α : Type} (f : α → List Kind) (a : α) (l : List α) :
    listed ((a :: l).map f) = f a ++ l.flatMap (sym .comma :: f ·) := by
  rw [List.map_cons, listed, List.flatMap_map]

theorem takes_nameList {names : List String} (some : names ≠ []) :
    Parses nameList 1 (listed (names.map fun s => [.name s])) AtEnd (· = names) := by
  obtain ⟨s, names, rfl⟩ := List.exists_cons_of_ne_nil some
  rw [listed_map]
  intro n hn
  simp only [List.length_append, List.length_cons, List.length_nil] at hn
  exact .identifier
    (.bindLast (takes_moreNames names n (by omega)) (fun _ h => .pure (congrArg (s :: ·) h))
      fun _ hk => hk)

theorem length_le_listed {α : Type} (f : α → List Kind) {a : α} {l : List α} (h : a ∈ l) :
    (f a).length ≤ (listed (l.map f)).length := by
  obtain ⟨front, others, rfl⟩ := List.append_of_mem h
  cases front with
  | nil =>
    rw [List.nil_append, listed_map, List.length_append]
    exact Nat.le_add_right _ _
  | cons b front =>
    simp only [List.cons_append, listed_map, List.flatMap_append, List.flatMap_cons,
      List.length_append, List.length_cons]
    omega

/-! ### Imports -/

theorem takes_moreComponents (cs : List String) {F : Kind → Prop}
    (follow : ∀ k, F k → k ≠ sym .dot) :
    Parses moreComponents 1 (cs.flatMap fun c => [sym .dot, .name c]) F
      (· = String.join (cs.map ("." ++ ·))) := by
  induction cs with
  | nil => exact .next fun n _ => .accept_not follow (.pure rfl)
  | cons c cs ih =>
    refine .next fun n hn => .accept rfl (.identifier ?_)
    simp only [List.flatMap_cons, List.length_append, List.length_cons, List.length_nil] at hn
    refine .bindLast (ih n (by omega)) (fun _ h => .pure ?_) fun _ hk => hk
    rw [h, List.map_cons, String.join_cons]

theorem toList_join_components (part : List Char) (parts : List (List Char)) :
    (String.ofList part ++ String.join (parts.map fun p => "." ++ String.ofList p)).toList =
      ['.'].intercalate (part :: parts) := by
  induction parts generalizing part with
  | nil => simp
  | cons next parts ih =>
    have rest := ih next
    simp only [String.toList_append, String.toList_ofList] at rest
    simp [List.intercalate_cons_cons, ← rest]

theorem components_ne_nil (s : String) : components s ≠ [] :=
  fun none => List.splitOn_ne_nil '.' s.toList (List.map_eq_nil_iff.1 none)

/-- The components of a name make up the name. -/
theorem join_components {s c : String} {cs : List String} (h : components s = c :: cs) :
    c ++ String.join (cs.map ("." ++ ·)) = s := by
  obtain ⟨part, parts, split, rfl, rfl⟩ := List.map_eq_cons_iff.1 h
  rw [List.map_map, ← String.toList_inj]
  exact (toList_join_components part parts).trans (split ▸ List.intercalate_splitOn '.')

theorem takes_dottedName (s : String) {F : Kind → Prop}
    (follow : ∀ k, F k → k ≠ sym .dot) : Parses dottedName 1 (dotted s) F (· = s) := by
  intro n hn
  unfold dotted at hn ⊢
  split at hn
  · next none => exact absurd none (components_ne_nil s)
  · next c cs parts =>
    simp only [List.length_cons] at hn
    refine .identifier (.bindLast (takes_moreComponents cs follow n (by omega))
      (fun _ h => .pure ?_) fun _ hk => hk)
    rw [h, join_components parts]

theorem takes_leadingDots (dots : List Char) (all : ∀ c ∈ dots, c = '.') {F : Kind → Prop}
    (follow : ∀ k, F k → k ≠ sym .dot) :
    Parses leadingDots 1 (dots.map fun _ => sym .dot) F (· = String.ofList dots) := by
  induction dots with
  | nil => exact .next fun n _ => .accept_not follow (.pure rfl)
  | cons c dots ih =>
    obtain ⟨rfl, others⟩ := List.forall_mem_cons.1 all
    refine .next fun n hn => .accept rfl ?_
    simp only [List.map_cons, List.length_cons] at hn
    refine .bindLast (ih others n (by omega)) (fun _ h => .pure ?_) fun _ hk => hk
    rw [h]
    exact String.toList_inj.1 (by simp)

theorem head_dotted (s : String) (k : Kind) : (dotted s).headD k ≠ sym .dot ∧
    (dotted s).headD k ≠ word .importKw := by
  unfold dotted
  split
  · next none => exact absurd none (components_ne_nil s)
  · exact ⟨Kind.noConfusion, Kind.noConfusion⟩

theorem takes_moduleName (s : String) :
    Parses moduleName 2 (source s) (· = word .importKw) (· = s) := by
  have dots : ∀ c ∈ sourceDots s, c = '.' := fun c hc => by
    simpa using List.all_eq_true.1 List.all_takeWhile c hc
  have whole := sourceDots_append_sourceName s
  intro n hn
  unfold source at hn ⊢
  rw [List.length_append, List.length_map] at hn
  have leading {F : Kind → Prop} (follow : ∀ k, F k → k ≠ sym .dot) :=
    takes_leadingDots _ dots follow n (by rw [List.length_map]; omega)
  by_cases unnamed : sourceName s = ""
  · rw [if_pos unnamed]
    refine .bind (leading fun k hk => hk) (fun d hd => ?_) (by rintro _ rfl; simp)
    rw [unnamed, String.append_empty] at whole
    exact .isAt (fun _ hk => hk) (.pure (hd.trans whole))
  · rw [if_neg unnamed] at hn ⊢
    refine .bind (leading fun k hk => hk) (fun d hd => ?_) fun k _ => (head_dotted _ k).1
    rw [hd]
    refine .isAt_not (fun k _ => (head_dotted _ k).2) ?_
    refine .bindLast (takes_dottedName (sourceName s) (F := (· = word .importKw))
      (by rintro _ rfl; simp) n (by omega)) (fun m hm => .pure ?_) fun _ hk => hk
    rw [hm, whole]

theorem takes_import {name : Parse String} {a : Import} {ks : List Kind} {F : Kind → Prop}
    (missing : ∀ k, F k → k ≠ word .asKw)
    (read : Takes name ks (fun k => F k ∨ k = word .asKw) (· = a.name)) :
    Takes (importItem name) (a.tokens ks) F (·.unplaced = a.unplaced) := by
  refine .here fun p => .bind read (fun s hs => ?_) fun k hk => ?_
  · subst hs
    refine .bindLast (takes_alias missing) (fun o ho => ?_) fun _ hk => hk
    subst ho
    exact .pure rfl
  · unfold optional
    split
    · exact .inl hk
    · exact .inr rfl

/-- What may follow a member of a list on its line. -/
def AfterMember (k : Kind) : Prop := k = sym .comma ∨ AtEnd k

theorem head_flatMap_comma {α : Type} (f : α → List Kind) (l : List α) {F : Kind → Prop}
    (comma : F (sym .comma)) {k : Kind} (hk : F k) :
    F ((l.flatMap (sym .comma :: f ·)).headD k) := by
  cases l with
  | nil => exact hk
  | cons a l => exact comma

section

variable {name : Parse String} {tokens : Import → List Kind} {names : List Import}

theorem takes_moreImports
    (read : ∀ a ∈ names,
      Takes name (tokens a) (fun k => AfterMember k ∨ k = word .asKw) (· = a.name)) :
    Parses (moreImports name) 1 (names.flatMap fun a => sym .comma :: a.tokens (tokens a)) AtEnd
      (·.map Import.unplaced = names.map Import.unplaced) := by
  induction names with
  | nil => exact .next fun n _ => .accept_not (by rintro _ rfl; simp) (.pure rfl)
  | cons a names ih =>
    obtain ⟨first, others⟩ := List.forall_mem_cons.1 read
    refine .next fun n hn => .accept rfl ?_
    simp only [List.flatMap_cons, List.length_append, List.length_cons] at hn
    refine .bind (takes_import (F := AfterMember) ?_ first) (fun b hb => ?_) fun k hk =>
      head_flatMap_comma _ names (.inl rfl) (.inr hk)
    · rintro k (rfl | rfl) <;> simp
    · exact .bindLast (ih others n (by omega)) (fun bs hbs => .pure (by simp [hb, hbs]))
        fun _ hk => hk

theorem takes_importList (some : names ≠ [])
    (read : ∀ a ∈ names,
      Takes name (tokens a) (fun k => AfterMember k ∨ k = word .asKw) (· = a.name)) :
    Parses (importList name) 1 (listed (names.map fun a => a.tokens (tokens a))) AtEnd
      (·.map Import.unplaced = names.map Import.unplaced) := by
  obtain ⟨a, names, rfl⟩ := List.exists_cons_of_ne_nil some
  obtain ⟨first, others⟩ := List.forall_mem_cons.1 read
  rw [listed_map]
  intro n hn
  rw [List.length_append] at hn
  refine .bind (takes_import (F := AfterMember) ?_ first) (fun b hb => ?_) fun k hk =>
    head_flatMap_comma _ names (.inl rfl) (.inr hk)
  · rintro k (rfl | rfl) <;> simp
  · exact .bindLast (takes_moreImports others n (by omega))
      (fun bs hbs => .pure (by simp [hb, hbs])) fun _ hk => hk

end

/-! ### Targets -/

theorem checkTargets_eq {f : Fault} {es : List Expr} (h : ∀ e ∈ es, e.isAssignable = true) :
    checkTargets f es = pure () := by
  induction es with
  | nil => rfl
  | cons e es ih =>
    obtain ⟨first, others⟩ := List.forall_mem_cons.1 h
    rw [checkTargets, if_pos first, ih others]

theorem checkSingle_eq {f : Fault} {e : Expr} (h : e.isSingleTarget = true) :
    checkSingle f e = pure () := if_pos h

/-- Trees that differ in places only may be assigned to alike. -/
theorem assignable_of_unplaced {es es' : List Expr}
    (same : Expr.unplacedAll es = Expr.unplacedAll es')
    (h : ∀ e ∈ es', e.isAssignable = true) : ∀ e ∈ es, e.isAssignable = true := by
  rw [← Expr.areAssignable_iff, ← Expr.areAssignable_unplacedAll] at h ⊢
  rw [same]
  exact h

theorem singleTarget_of_unplaced {e e' : Expr} (same : e.unplaced = e'.unplaced)
    (h : e'.isSingleTarget = true) : e.isSingleTarget = true := by
  rw [← Expr.isSingleTarget_unplaced] at h ⊢
  rw [same]
  exact h

/-! ### Expressions in statements -/

section

variable {e : Expr} {es : List Expr} {n : Nat}

theorem parses_test (h : (Node.expr e).Writable) :
    Parses test 11 e.tokens (Ends 1) (·.unplaced = e.unplaced) :=
  parsed_of_derives (Expr.derives_tokens h)

theorem parses_testList (h : (Node.expr e).Writable) :
    Parses testList 12 e.tokens Closes (·.unplaced = e.unplaced) :=
  parsed_of_derives (.testList (Expr.derives_tokens h))

/-- An expression begins with a token that begins expressions. -/
theorem opening_head (h : (Node.expr e).Writable) (ks : List Kind) (k : Kind) :
    opening ((e.tokens ++ ks).headD k) ≠ 0 := by
  rcases (Expr.derives_tokens h).opens with none | ⟨first, others, eq, begins⟩
  · cases none
  · rw [eq]
    exact Nat.one_le_iff_ne_zero.1 begins

theorem ends_of_afterMember {k : Kind} (h : AfterMember k) : Ends 1 k := by
  rcases h with rfl | rfl <;> decide

theorem takes_moreDeleted (h : ∀ e ∈ es, (Node.expr e).Writable) :
    Parses moreDeleted 12 (es.flatMap fun e => sym .comma :: e.tokens) AtEnd
      (Expr.unplacedAll · = Expr.unplacedAll es) := by
  induction es with
  | nil => exact .next fun n _ => .accept_not (by rintro _ rfl; simp) (.pure rfl)
  | cons e es ih =>
    obtain ⟨first, others⟩ := List.forall_mem_cons.1 h
    refine .next fun n hn => .accept rfl (.notAtStatementEnd (fun k _ => opening_head first _ k) ?_)
    simp only [List.flatMap_cons, List.length_append, List.length_cons] at hn
    refine .bind (parses_test first n (by omega)) (fun e' he => ?_) fun k hk =>
      ends_of_afterMember (head_flatMap_comma _ es (.inl rfl) (.inr hk))
    exact .bindLast (ih others n (by omega)) (fun es' hes => .pure (by simp [he, hes]))
      fun _ hk => hk

theorem takes_assigned {value : Expr} (h : ∀ e ∈ es, (Node.expr e).Writable)
    (hvalue : (Node.expr value).Writable) :
    Parses assigned 13 (es.flatMap (fun e => e.tokens ++ [sym .assign]) ++ value.tokens) AtEnd
      fun r => Expr.unplacedAll r.1 = Expr.unplacedAll es ∧ r.2.unplaced = value.unplaced := by
  induction es with
  | nil =>
    refine .next fun n hn => .bindLast (parses_testList hvalue n hn) (fun e he => ?_) ?_
    · exact .accept_not (by rintro _ rfl; simp) (.pure ⟨rfl, he⟩)
    · rintro _ rfl
      exact ⟨Nat.le_refl 0, rfl⟩
  | cons e es ih =>
    obtain ⟨first, others⟩ := List.forall_mem_cons.1 h
    rw [List.flatMap_cons, List.append_assoc, List.append_assoc]
    refine .next fun n hn => ?_
    simp only [List.length_append, List.length_cons, List.length_nil] at hn
    refine .bind (parses_testList first n (by omega)) (fun e' he => .accept rfl ?_)
      fun k _ => ⟨Nat.le_refl 0, rfl⟩
    exact .bindLast (ih others n (by rw [List.length_append]; omega))
      (fun r hr => .pure (by simp [he, hr])) fun _ hk => hk

end

/-! ### Simple statements -/

section

variable {s : Stmt} {n : Nat} {p q : Position}

theorem closes_of_atEnd {k : Kind} (h : AtEnd k) : Closes k := by
  subst h
  exact ⟨Nat.le_refl 0, rfl⟩

theorem takes_assign {targets : List Expr} {value : Expr}
    (h : (Node.stmt (.assign targets value p)).Writable) :
    Parses (expressionStatement · q) 13 (Stmt.assign targets value p).tokens AtEnd
      (·.unplaced = (Stmt.assign targets value p).unplaced) := by
  obtain ⟨some, assignable⟩ := h.here.1
  have written : ∀ e ∈ targets, (Node.expr e).Writable := fun e he =>
    h.child (List.mem_append_left _ (List.mem_map.2 ⟨e, he, rfl⟩))
  obtain ⟨e, es, rfl⟩ := List.exists_cons_of_ne_nil some
  obtain ⟨first, others⟩ := List.forall_mem_cons.1 written
  have hvalue : (Node.expr value).Writable := h.child (by simp [Node.children, Stmt.parts])
  intro n hn
  rw [Stmt.tokens, List.flatMap_cons, List.append_assoc, List.append_assoc] at hn ⊢
  simp only [List.length_append, List.length_cons, List.length_nil] at hn
  refine .bind (parses_testList first n (by omega)) (fun e' he => .accept rfl ?_)
    fun k _ => ⟨Nat.le_refl 0, rfl⟩
  refine .bindLast (takes_assigned others hvalue n (by rw [List.length_append]; omega))
    (fun r hr => ?_) fun _ hk => hk
  have same : Expr.unplacedAll (e' :: r.1) = Expr.unplacedAll (e :: es) := by simp [he, hr.1]
  dsimp only
  rw [checkTargets_eq (assignable_of_unplaced same assignable), pure_bind]
  exact .pure (by simp [Stmt.unplaced, he, hr])

theorem takes_augment {target value : Expr} {op : BinaryOp}
    (h : (Node.stmt (.augment target op value p)).Writable) :
    Parses (expressionStatement · q) 13 (Stmt.augment target op value p).tokens AtEnd
      (·.unplaced = (Stmt.augment target op value p).unplaced) := by
  have htarget : (Node.expr target).Writable := h.child (by simp [Node.children, Stmt.parts])
  have hvalue : (Node.expr value).Writable := h.child (by simp [Node.children, Stmt.parts])
  have found : augmentOp? (sym op.assignMark) = some op := by cases op <;> rfl
  intro n hn
  rw [Stmt.tokens] at hn ⊢
  simp only [List.length_append, List.length_cons] at hn
  refine .bind (parses_testList htarget n (by omega)) (fun e he => ?_)
    fun k _ => by cases op <;> exact ⟨Nat.le_refl 0, rfl⟩
  refine .accept_not (fun k _ => by cases op <;> simp [BinaryOp.assignMark]) (.peek fun k _ => ?_)
  rw [List.headD_cons, found]
  refine .advance (by cases op <;> rfl) ?_
  rw [checkSingle_eq (singleTarget_of_unplaced he h.here.1), pure_bind]
  exact .bindLast (parses_testList hvalue n (by omega))
    (fun v hv => .pure (by simp [Stmt.unplaced, he, hv])) fun _ => closes_of_atEnd

theorem takes_annotate {target annotation : Expr} {value : Option Expr}
    (h : (Node.stmt (.annotate target annotation value p)).Writable) :
    Parses (expressionStatement · q) 13 (Stmt.annotate target annotation value p).tokens AtEnd
      (·.unplaced = (Stmt.annotate target annotation value p).unplaced) := by
  have htarget : (Node.expr target).Writable := h.child (by simp [Node.children, Stmt.parts])
  have hkind : (Node.expr annotation).Writable :=
    h.child (by simp [Node.children, Stmt.parts])
  intro n hn
  rw [Stmt.tokens] at hn ⊢
  simp only [List.length_append, List.length_cons] at hn
  refine .bind (parses_testList htarget n (by omega)) (fun e he => ?_)
    fun k _ => ⟨Nat.le_refl 0, rfl⟩
  refine .accept_not (fun k _ => by simp) (.peek fun k _ => ?_)
  refine .accept rfl ?_
  rw [checkSingle_eq (singleTarget_of_unplaced he h.here.1), pure_bind]
  have given : Takes (following (.symbol .assign) (testList n))
      (optional (sym .assign) (value.map Expr.tokens)) AtEnd
      (·.map Expr.unplaced = value.map Expr.unplaced) := by
    refine takes_expression rfl (by rintro _ rfl; simp) fun v hv => ?_
    subst hv
    have hv : (Node.expr v).Writable := h.child (by simp [Node.children, Stmt.parts])
    refine (parses_testList hv n ?_).mono (fun _ => closes_of_atEnd) fun _ hv => hv
    simp only [optional, Option.map_some, List.length_cons] at hn
    omega
  refine .bind (parses_test hkind n (by omega)) (fun a ha => ?_) fun k hk => ?_
  · exact .bindLast given (fun v hv => .pure (by simp [Stmt.unplaced, he, ha, hv])) fun _ hk => hk
  · exact head_optional _ (by decide) (ends_of_afterMember (.inr hk))

/-- What begins as expressions do is no statement with a keyword. -/
theorem takes_smallStatement {ks : List Kind} {Q : Stmt → Prop}
    (begins : ∀ k, AtEnd k → opening (ks.headD k) ≠ 0)
    (read : ∀ p, Takes (expressionStatement n p) ks AtEnd Q) :
    Takes (smallStatement n) ks AtEnd Q := by
  unfold smallStatement
  refine .here fun p => .peek fun k hk => ?_
  have other := begins k hk
  split
  case h_12 => exact read p
  all_goals
    next first =>
      rw [first] at other
      exact absurd rfl other

/-- Tokens of an expression are a statement of their own. -/
theorem parses_bare {ks : List Kind} {value : Expr} (h : Derives ks (.testList value)) :
    Parses smallStatement 13 ks AtEnd (·.unplaced = .expr value .start) := by
  intro n hn
  refine takes_smallStatement (fun k _ => ?_) fun p => ?_
  · rcases h.opens with none | ⟨first, others, rfl, begins⟩
    · cases none
    · exact Nat.one_le_iff_ne_zero.1 begins
  · refine .bindLast (parsed_of_derives h n (by omega)) (fun e he => ?_) fun _ => closes_of_atEnd
    refine .accept_not (by rintro _ rfl; simp) (.peek fun k hk => ?_)
    subst hk
    exact .accept_not (by rintro _ rfl; simp) (.pure (by simp [Stmt.unplaced, he]))

theorem takes_return {value : Option Expr} (h : (Node.stmt (.ret value p)).Writable) :
    Parses smallStatement 13 (Stmt.ret value p).tokens AtEnd
      (·.unplaced = (Stmt.ret value p).unplaced) := by
  intro n hn
  refine .here fun q => .peek fun k _ => .advance rfl ?_
  cases value with
  | none => exact .atStatementEnd (fun _ hk => hk) (.pure rfl)
  | some e =>
    have he : (Node.expr e).Writable := h.child (by simp [Node.children, Stmt.parts])
    refine .notAtStatementEnd (fun k _ => ?_) ?_
    · have := opening_head he [] k
      rwa [List.append_nil] at this
    · simp only [Stmt.tokens, Option.map_some, Option.getD_some, List.length_cons] at hn
      exact .bindLast (parses_testList he n (by omega))
        (fun v hv => .pure (by simp [Stmt.unplaced, hv])) fun _ => closes_of_atEnd

theorem takes_raise {value : Option Expr} (h : (Node.stmt (.raise value p)).Writable) :
    Parses smallStatement 13 (Stmt.raise value p).tokens AtEnd
      (·.unplaced = (Stmt.raise value p).unplaced) := by
  intro n hn
  refine .here fun q => .peek fun k _ => .advance rfl ?_
  cases value with
  | none => exact .atStatementEnd (fun _ hk => hk) (.pure rfl)
  | some e =>
    have he : (Node.expr e).Writable := h.child (by simp [Node.children, Stmt.parts])
    refine .notAtStatementEnd (fun k _ => ?_) ?_
    · have := opening_head he [] k
      rwa [List.append_nil] at this
    · simp only [Stmt.tokens, Option.map_some, Option.getD_some, List.length_cons] at hn
      exact .bindLast (parses_test he n (by omega))
        (fun v hv => .pure (by simp [Stmt.unplaced, hv])) fun _ hk => ends_of_afterMember (.inr hk)

theorem takes_delete {targets : List Expr} (h : (Node.stmt (.delete targets p)).Writable) :
    Parses smallStatement 13 (Stmt.delete targets p).tokens AtEnd
      (·.unplaced = (Stmt.delete targets p).unplaced) := by
  obtain ⟨some, assignable⟩ := h.here.1
  have written : ∀ e ∈ targets, (Node.expr e).Writable := fun e he =>
    h.child (List.mem_map.2 ⟨e, he, rfl⟩)
  obtain ⟨e, es, rfl⟩ := List.exists_cons_of_ne_nil some
  obtain ⟨first, others⟩ := List.forall_mem_cons.1 written
  intro n hn
  rw [Stmt.tokens, listed_map] at hn ⊢
  simp only [List.length_append, List.length_cons] at hn
  refine .here fun q => .peek fun k _ => .advance rfl ?_
  refine .bind (parses_test first n (by omega)) (fun e' he => ?_) fun k hk =>
    ends_of_afterMember (head_flatMap_comma _ es (.inl rfl) (.inr hk))
  refine .bindLast (takes_moreDeleted others n (by omega)) (fun es' hes => ?_) fun _ hk => hk
  have same : Expr.unplacedAll (e' :: es') = Expr.unplacedAll (e :: es) := by simp [he, hes]
  dsimp only
  rw [checkTargets_eq (assignable_of_unplaced same assignable), pure_bind]
  exact .pure (by simp [Stmt.unplaced, he, hes])

theorem takes_assert {condition : Expr} {message : Option Expr}
    (h : (Node.stmt (.assert condition message p)).Writable) :
    Parses smallStatement 13 (Stmt.assert condition message p).tokens AtEnd
      (·.unplaced = (Stmt.assert condition message p).unplaced) := by
  have hcondition : (Node.expr condition).Writable := h.child (by simp [Node.children, Stmt.parts])
  intro n hn
  rw [Stmt.tokens] at hn ⊢
  simp only [List.length_append, List.length_cons] at hn
  have given : Takes (following (.symbol .comma) (test n))
      (optional (sym .comma) (message.map Expr.tokens)) AtEnd
      (·.map Expr.unplaced = message.map Expr.unplaced) := by
    refine takes_expression rfl (by rintro _ rfl; simp) fun v hv => ?_
    subst hv
    have hv : (Node.expr v).Writable := h.child (by simp [Node.children, Stmt.parts])
    refine (parses_test hv n ?_).mono (fun _ hk => ends_of_afterMember (.inr hk)) fun _ hv => hv
    simp only [optional, Option.map_some, List.length_cons] at hn
    omega
  refine .here fun q => .peek fun k _ => .advance rfl ?_
  refine .bind (parses_test hcondition n (by omega)) (fun c hc => ?_) fun k hk => ?_
  · exact .bindLast given (fun m hm => .pure (by simp [Stmt.unplaced, hc, hm])) fun _ hk => hk
  · exact head_optional _ (by decide) (ends_of_afterMember (.inr hk))

theorem takes_importNames {names : List Import}
    (h : (Node.stmt (.importNames names p)).Writable) :
    Parses smallStatement 13 (Stmt.importNames names p).tokens AtEnd
      (·.unplaced = (Stmt.importNames names p).unplaced) := by
  intro n hn
  rw [Stmt.tokens] at hn ⊢
  simp only [List.length_cons] at hn
  refine .here fun q => .peek fun k _ => .advance rfl ?_
  refine .bindLast (takes_importList h.here.1.1 (fun a ha => ?_) n (by omega))
    (fun as has => .pure (by simp [Stmt.unplaced, has])) fun _ hk => hk
  refine takes_dottedName a.name ?_ n ?_
  · rintro k ((rfl | rfl) | rfl) <;> simp
  · have inside := length_le_listed (fun a : Import => a.tokens (dotted a.name)) ha
    rw [Import.tokens, List.length_append] at inside
    omega

/-- The names after the word "import" are everything or names one after another. -/
theorem takes_members {names : List Import} (hnames : ∀ a ∈ names, isIdentifier a.name = true) :
    names.map Import.memberTokens = names.map fun a => a.tokens [.name a.name] := by
  refine List.map_congr_left fun a ha => if_neg fun star => ?_
  have named := hnames a ha
  rw [Import.isStar, Bool.and_eq_true, decide_eq_true_iff] at star
  rw [star.1] at named
  exact absurd named (by decide)

theorem takes_importFrom {origin : String} {names : List Import}
    (h : (Node.stmt (.importFrom origin names p)).Writable) :
    Parses smallStatement 13 (Stmt.importFrom origin names p).tokens AtEnd
      (·.unplaced = (Stmt.importFrom origin names p).unplaced) := by
  intro n hn
  rw [Stmt.tokens] at hn ⊢
  simp only [List.length_append, List.length_cons] at hn
  refine .here fun q => .peek fun k _ => .advance rfl ?_
  refine .bind (takes_moduleName origin n (by omega)) (fun s hs => ?_) fun _ _ => rfl
  subst hs
  refine .expect rfl (.here fun star => ?_)
  rcases h.here.1.2 with ⟨a, rfl, starred⟩ | ⟨some, named⟩
  · have tokens : listed ([a].map Import.memberTokens) = [sym .star] := by
      simp [listed, Import.memberTokens, starred]
    rw [tokens]
    refine .accept rfl (.pure ?_)
    rw [Import.isStar, Bool.and_eq_true, decide_eq_true_iff, Option.isNone_iff_eq_none] at starred
    simp [Stmt.unplaced, Import.unplaced, starred]
  · rw [takes_members named] at hn ⊢
    have begins (k : Kind) (m : Mark) :
        (listed (names.map fun a => a.tokens [.name a.name])).headD k ≠ .mark m := by
      obtain ⟨a, others, rfl⟩ := List.exists_cons_of_ne_nil some
      exact Kind.noConfusion
    refine .accept_not (fun k _ => begins k _) (.accept_not (fun k _ => begins k _) ?_)
    refine .bindLast (takes_importList some (fun a _ => takes_identifier) n (by omega))
      (fun as has => .pure (by simp [Stmt.unplaced, has])) fun _ hk => hk

/-- A simple statement is read back. -/
theorem parses_smallStatement (simple : Node.isSimple s = true) (h : (Node.stmt s).Writable) :
    Parses smallStatement 13 s.tokens AtEnd (·.unplaced = s.unplaced) := by
  intro n hn
  cases s with
  | function | classDef | forLoop | whileLoop | cond | withBlock | tryBlock => cases simple
  | ret => exact takes_return h n hn
  | raise => exact takes_raise h n hn
  | delete => exact takes_delete h n hn
  | assert => exact takes_assert h n hn
  | importNames => exact takes_importNames h n hn
  | importFrom => exact takes_importFrom h n hn
  | globalDecl names p | nonlocalDecl names p =>
    rw [Stmt.tokens] at hn ⊢
    refine .here fun q => .peek fun k _ => .advance rfl ?_
    refine .bindLast (takes_nameList h.here.1.1 n ?_) (fun as has => .pure ?_) fun _ hk => hk
    · rw [List.length_cons] at hn
      omega
    · rw [has]
      rfl
  | pass | brk | cont => exact .here fun q => .peek fun k _ => .advance rfl (.pure rfl)
  | assign targets value p =>
    obtain ⟨e, es, rfl⟩ := List.exists_cons_of_ne_nil h.here.1.1
    have first : (Node.expr e).Writable := h.child (by simp [Node.children, Stmt.parts])
    refine takes_smallStatement (fun k _ => ?_) fun q => takes_assign h n hn
    rw [Stmt.tokens, List.flatMap_cons, List.append_assoc, List.append_assoc]
    exact opening_head first _ k
  | augment target op value p =>
    have htarget : (Node.expr target).Writable := h.child (by simp [Node.children, Stmt.parts])
    exact takes_smallStatement (fun k _ => opening_head htarget _ k) fun q => takes_augment h n hn
  | annotate target annotation value p =>
    have htarget : (Node.expr target).Writable := h.child (by simp [Node.children, Stmt.parts])
    exact takes_smallStatement (fun k _ => opening_head htarget _ k) fun q => takes_annotate h n hn
  | expr value p =>
    have hvalue : (Node.expr value).Writable := h.child (by simp [Node.children, Stmt.parts])
    exact parses_bare (.testList (Expr.derives_tokens hvalue)) n hn

/-- A simple statement on a line of its own is read back. -/
theorem parses_simpleStatements {ks : List Kind} {s : Stmt} {F : Kind → Prop}
    (read : Parses smallStatement 13 ks AtEnd (·.unplaced = s)) :
    Parses simpleStatements 14 (ks ++ [.mark .newline]) F (Stmt.unplacedAll · = [s]) := by
  intro n hn
  rw [List.length_append, List.length_singleton] at hn
  refine .bind (read n (by omega)) (fun s' hs => ?_) fun _ _ => rfl
  have alone : Takes (moreSmall n) [] AtEnd (· = []) := by
    obtain ⟨n, rfl⟩ : ∃ m, n = m + 1 := ⟨n - 1, by omega⟩
    exact .accept_not (by rintro _ rfl; simp) (.pure rfl)
  refine alone.bind (fun others none => ?_) fun _ _ => rfl
  rw [none]
  refine .isAt_not (fun _ _ => by simp) ?_
  have ending : Takes (expect .newline .statement >>= fun _ => pure [s']) [.mark .newline] F
      (Stmt.unplacedAll · = [s]) := .expect rfl (.pure (congrArg (fun t => [t]) hs))
  exact ending

end

end Parser

end Footprint
