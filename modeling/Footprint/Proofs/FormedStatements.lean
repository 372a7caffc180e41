import Footprint.Proofs.DefinitionNumbers
import Footprint.Proofs.Forms

set_option autoImplicit false

/-!
Simple statements that have been parsed have the form that `Node.Shaped` says: what is assigned to
and deleted may be, and names that are imported are names with dots between them.
-/

namespace Footprint

open Token

/-! ### Dotted names -/

theorem dot_not_mem_of_isIdentifier {s : String} (h : isIdentifier s = true) :
    '.' ∉ s.toList := by
  rw [isIdentifier, Bool.and_eq_true] at h
  obtain ⟨word, -⟩ := h
  unfold isWord at word
  split at word
  · cases word
  · next c cs chars =>
    rw [Bool.and_eq_true, List.all_eq_true] at word
    rw [chars]
    intro dot
    rcases List.mem_cons.1 dot with rfl | dot
    · exact absurd word.1 (by decide)
    · exact absurd (word.2 '.' dot) (by decide)

section

variable {s t : String}

theorem isDotted_of_isIdentifier (h : isIdentifier s = true) : isDotted s = true := by
  have whole : s.toList.splitOn '.' = [s.toList] :=
    List.splitOn_eq_singleton (dot_not_mem_of_isIdentifier h)
  simp [isDotted, components, whole, h]

theorem isDotted_dot (h : isIdentifier s = true) (more : isDotted t = true) :
    isDotted (s ++ ("." ++ t)) = true := by
  have first : (s ++ ("." ++ t)).toList.splitOn '.' = s.toList :: t.toList.splitOn '.' := by
    rw [String.toList_append, String.toList_append]
    exact List.splitOn_append_cons_self_of_not_mem (dot_not_mem_of_isIdentifier h) t.toList
  rw [isDotted, components] at more
  simp only [isDotted, components, first, List.map_cons, List.all_cons, String.ofList_toList, h,
    more, Bool.and_self]

/-- A dotted name does not begin with a dot. -/
theorem sourceName_of_isDotted (h : isDotted s = true) : sourceName s = s := by
  have kept : s.toList.dropWhile (· = '.') = s.toList := by
    cases chars : s.toList with
    | nil => simp
    | cons c cs =>
      by_cases dot : c = '.'
      · subst dot
        have split : s.toList.splitOn '.' = [] :: cs.splitOn '.' :=
          chars ▸ List.splitOn_append_cons_self_of_not_mem (List.not_mem_nil) cs
        rw [isDotted, components, split, List.map_cons, List.all_cons, Bool.and_eq_true] at h
        exact absurd h.1 (by decide)
      · exact List.dropWhile_cons_of_neg (by simpa using dot)
  rw [sourceName, kept, String.ofList_toList]

/-- Names can be imported from dots with a dotted name after them. -/
theorem isSource_of_dots {dots : String} (h : ∀ c ∈ dots.toList, c = '.') :
    isSource dots = true ∧ (isDotted s = true → isSource (dots ++ s) = true) := by
  have dropped (cs : List Char) :
      (dots.toList ++ cs).dropWhile (· = '.') = cs.dropWhile (· = '.') :=
    List.dropWhile_append_of_pos fun c hc => decide_eq_true (h c hc)
  constructor
  · have none := dropped []
    rw [List.append_nil] at none
    simp [isSource, sourceName, none]
  · intro named
    have same : sourceName (dots ++ s) = s := by
      rw [sourceName, String.toList_append, dropped]
      exact sourceName_of_isDotted named
    rw [isSource, same, named, Bool.or_true]

end

/-! ### Statements without blocks -/

namespace Node

theorem formed_exprs {es : List Expr} (h : ∀ e ∈ es, e.Formed) : ∀ m ∈ es.map expr, m.Formed :=
  List.forall_mem_map.2 h

theorem formed_option {o : Option Expr} (h : ∀ e ∈ o, e.Formed) :
    ∀ m ∈ o.toList.map expr, m.Formed :=
  formed_exprs fun e he => h e (Option.mem_toList.1 he)

/-- All the statements have been made. -/
abbrev FormedStmts (ss : List Stmt) : Prop := ∀ s ∈ ss, (stmt s).Formed

theorem formed_imported {a : Import} (h : ∀ s ∈ a.asName, isIdentifier s = true) :
    (imported a).Formed :=
  formed_of_children ⟨h, fun _ _ h => nomatch h⟩ (List.forall_mem_nil _)

theorem formed_simple {s : Stmt} (simple : isSimple s = true) (own : s.Shaped)
    (parts : ∀ m ∈ s.parts, m.Formed) : (stmt s).Formed := by
  refine formed_of_children ⟨own, ?_⟩ parts
  rintro head body h
  cases h
  cases simple

end Node

namespace Parser

open Token Node

variable {K : Kind → Prop}

theorem forms_checkTargets (f : Fault) (es : List Expr) :
    Forms K (checkTargets f es) fun _ => ∀ e ∈ es, e.isAssignable = true := by
  induction es with
  | nil => exact .pure (List.forall_mem_nil _)
  | cons e es ih =>
    unfold checkTargets
    split
    · next assignable => exact ih.imp fun _ others => List.forall_mem_cons.2 ⟨assignable, others⟩
    · exact .fail

theorem forms_checkSingle (f : Fault) (e : Expr) :
    Forms K (checkSingle f e) fun _ => e.isSingleTarget = true := by
  unfold checkSingle
  split
  · next single => exact .pure single
  · exact .fail

section

variable (n : Nat)

theorem forms_moreNames :
    Forms AnyKind (moreNames n) fun names => ∀ s ∈ names, isIdentifier s = true := by
  induction n with
  | zero => exact .failHere
  | succ n ih =>
    unfold moreNames
    exact .separated .identifier ih

theorem forms_nameList : Forms AnyKind (nameList n) fun names =>
    names ≠ [] ∧ ∀ s ∈ names, isIdentifier s = true := by
  unfold nameList
  refine .bind .identifier fun s hs => .bind (forms_moreNames n) fun names others => .pure ?_
  exact ⟨List.cons_ne_nil _ _, List.forall_mem_cons.2 ⟨hs, others⟩⟩

theorem forms_moreComponents : Forms AnyKind (moreComponents n) fun more =>
    more = "" ∨ ∃ s, isDotted s = true ∧ more = "." ++ s := by
  induction n with
  | zero => exact .failHere
  | succ n ih =>
    unfold moreComponents
    refine .skip .accept fun dot => ?_
    split
    · refine .bind .identifier fun s hs => .bind ih fun more hmore => .pure (.inr ?_)
      rcases hmore with rfl | ⟨t, ht, rfl⟩
      · exact ⟨s, isDotted_of_isIdentifier hs, by rw [String.append_empty]⟩
      · exact ⟨s ++ ("." ++ t), isDotted_dot hs ht, String.append_assoc⟩
    · exact .pure (.inl rfl)

theorem forms_dottedName : Forms AnyKind (dottedName n) (isDotted · = true) := by
  unfold dottedName
  refine .bind .identifier fun s hs => .bind (forms_moreComponents n) fun more hmore => .pure ?_
  rcases hmore with rfl | ⟨t, ht, rfl⟩
  · rw [String.append_empty]
    exact isDotted_of_isIdentifier hs
  · exact isDotted_dot hs ht

/-- What has been imported has a name of the kind that is read, and may have another one. -/
def Imported (Q : String → Prop) (a : Import) : Prop :=
  Q a.name ∧ ∀ s ∈ a.asName, isIdentifier s = true

section

variable {name : Parse String} {Q : String → Prop} (hname : Forms AnyKind name Q)

include hname

theorem forms_importItem : Forms AnyKind (importItem name) (Imported Q) := by
  unfold importItem
  refine .skip .here fun p => .bind hname fun s hs => ?_
  exact .bind (.following .identifier) fun asName has => .pure ⟨hs, has⟩

theorem forms_moreImports :
    Forms AnyKind (moreImports name n) fun items => ∀ a ∈ items, Imported Q a := by
  induction n with
  | zero => exact .failHere
  | succ n ih =>
    unfold moreImports
    exact .separated (forms_importItem hname) ih

theorem forms_importList : Forms AnyKind (importList name n) fun items =>
    items ≠ [] ∧ ∀ a ∈ items, Imported Q a := by
  unfold importList
  refine .bind (forms_importItem hname) fun a ha => .bind (forms_moreImports n hname) fun as has => ?_
  exact .pure ⟨List.cons_ne_nil _ _, List.forall_mem_cons.2 ⟨ha, has⟩⟩

end

theorem forms_enclosedImports : Forms AnyKind (enclosedImports n) fun items =>
    items ≠ [] ∧ ∀ a ∈ items, Imported (isIdentifier · = true) a := by
  induction n with
  | zero => exact .failHere
  | succ n ih =>
    unfold enclosedImports
    refine .bind (forms_importItem .identifier) fun a ha => .skip .accept fun comma => ?_
    have single : Forms AnyKind (pure [a]) fun items =>
        items ≠ [] ∧ ∀ a ∈ items, Imported (isIdentifier · = true) a :=
      .pure ⟨List.cons_ne_nil _ _, List.forall_mem_singleton.2 ha⟩
    split
    · refine .skip .isAt fun ended => ?_
      split
      · exact single
      · refine .bind ih fun items others => .pure ?_
        exact ⟨List.cons_ne_nil _ _, List.forall_mem_cons.2 ⟨ha, others.2⟩⟩
    · exact single

theorem forms_leadingDots :
    Forms AnyKind (leadingDots n) fun dots => ∀ c ∈ dots.toList, c = '.' := by
  induction n with
  | zero => exact .failHere
  | succ n ih =>
    unfold leadingDots
    refine .skip .accept fun dot => ?_
    split
    · refine .bind ih fun dots all => .pure ?_
      rw [String.toList_append]
      exact List.forall_mem_cons.2 ⟨rfl, all⟩
    · exact .pure (List.forall_mem_nil _)

theorem forms_moduleName : Forms AnyKind (moduleName n) (isSource · = true) := by
  unfold moduleName
  refine .bind (forms_leadingDots n) fun dots all => .skip .isAt fun ended => ?_
  split
  · exact .pure (isSource_of_dots (s := "") all).1
  · exact .bind (forms_dottedName n) fun s hs => .pure ((isSource_of_dots all).2 hs)

theorem formed_importNames {items : List Import} {p : Position}
    (h : items ≠ [] ∧ ∀ a ∈ items, Imported (isDotted · = true) a) :
    (stmt (.importNames items p)).Formed := by
  apply formed_simple rfl
  · exact ⟨h.1, fun a ha => (h.2 a ha).1⟩
  · exact List.forall_mem_map.2 fun a ha => formed_imported (h.2 a ha).2

theorem formed_importFrom {source : String} {items : List Import} {p : Position}
    (hsource : isSource source = true)
    (h : items ≠ [] ∧ ∀ a ∈ items, Imported (isIdentifier · = true) a) :
    (stmt (.importFrom source items p)).Formed := by
  apply formed_simple rfl
  · exact ⟨hsource, .inr ⟨h.1, fun a ha => (h.2 a ha).1⟩⟩
  · exact List.forall_mem_map.2 fun a ha => formed_imported (h.2 a ha).2

theorem forms_importFrom (p : Position) :
    Forms AnyKind (importFrom n p) fun s => (stmt s).Formed := by
  unfold importFrom
  refine .bind (forms_moduleName n) fun source hsource => .skip .expect fun _ => ?_
  refine .skip .here fun star => .skip .accept fun isStar => ?_
  split
  · refine .pure (formed_simple rfl ⟨hsource, .inl ⟨_, rfl, rfl⟩⟩ ?_)
    exact List.forall_mem_singleton.2 (formed_imported nofun)
  · refine .skip .accept fun isOpen => ?_
    split
    · refine .bind (forms_enclosedImports n) fun items h => .skip .expect fun _ => ?_
      exact .pure (formed_importFrom hsource h)
    · exact .bind (forms_importList n .identifier) fun items h => .pure (formed_importFrom hsource h)

theorem forms_moreDeleted : Forms AnyKind (moreDeleted n) FormedAll := by
  induction n with
  | zero => exact .failHere
  | succ n ih =>
    unfold moreDeleted
    refine .skip .accept fun comma => ?_
    split
    · refine .skip .isAtStatementEnd fun ended => ?_
      split
      · exact .pure (List.forall_mem_nil _)
      · refine .bind (allForm n).test fun e he => .bind ih fun es hes => .pure ?_
        exact List.forall_mem_cons.2 ⟨he, hes⟩
    · exact .pure (List.forall_mem_nil _)

theorem forms_assigned :
    Forms AnyKind (assigned n) fun r => FormedAll r.1 ∧ r.2.Formed := by
  induction n with
  | zero => exact .failHere
  | succ n ih =>
    unfold assigned
    refine .bind (allForm n).testList fun next hnext => .skip .accept fun more => ?_
    split
    · refine .bind ih fun r hr => .pure ?_
      exact ⟨List.forall_mem_cons.2 ⟨hnext, hr.1⟩, hr.2⟩
    · exact .pure ⟨List.forall_mem_nil _, hnext⟩

theorem forms_expressionStatement (p : Position) :
    Forms AnyKind (expressionStatement n p) fun s => (stmt s).Formed := by
  unfold expressionStatement
  refine .bind (allForm n).testList fun first hfirst => .skip .accept fun isAssignment => ?_
  split
  · refine .bind (forms_assigned n) fun r hr => ?_
    have targets : FormedAll (first :: r.1) := List.forall_mem_cons.2 ⟨hfirst, hr.1⟩
    refine .bind (forms_checkTargets _ _) fun _ assignable => .pure ?_
    apply formed_simple rfl
    · exact ⟨List.cons_ne_nil _ _, assignable⟩
    · exact List.forall_mem_append.2 ⟨formed_exprs targets, List.forall_mem_singleton.2 hr.2⟩
  · refine .skip Forms.peek.leaves fun k => ?_
    split
    · refine .skip .advance fun _ => .bind (forms_checkSingle _ _) fun _ single => ?_
      refine .bind (allForm n).testList fun value hvalue => .pure ?_
      refine formed_simple rfl single ?_
      exact List.forall_mem_cons.2 ⟨hfirst, List.forall_mem_singleton.2 hvalue⟩
    · refine .skip .accept fun isAnnotation => ?_
      split
      · refine .bind (forms_checkSingle _ _) fun _ single => ?_
        refine .bind (allForm n).test fun hint hhint => ?_
        refine .bind (.following (allForm n).testList) fun value hvalue => .pure ?_
        refine formed_simple rfl single (List.forall_mem_append.2 ⟨?_, formed_option hvalue⟩)
        exact List.forall_mem_cons.2 ⟨hfirst, List.forall_mem_singleton.2 hhint⟩
      · exact .pure (formed_simple rfl trivial (List.forall_mem_singleton.2 hfirst))

theorem forms_smallStatement : Forms AnyKind (smallStatement n) fun s => (stmt s).Formed := by
  have one {e : Expr} (h : e.Formed) : ∀ d ∈ some e, d.Formed := by
    rintro d ⟨⟩
    exact h
  unfold smallStatement
  refine .skip .here fun p => .skip Forms.peek.leaves fun k => ?_
  split
  case h_1 | h_2 | h_3 =>
    exact .skip .advance fun _ => .pure (formed_simple rfl trivial (List.forall_mem_nil _))
  case h_4 =>
    refine .skip .advance fun _ => .skip .isAtStatementEnd fun ended => ?_
    split
    · exact .pure (formed_simple rfl trivial (formed_option nofun))
    · refine .bind (allForm n).testList fun e he => .pure ?_
      exact formed_simple rfl trivial (formed_option (one he))
  case h_5 =>
    refine .skip .advance fun _ => .bind (allForm n).test fun first hfirst => ?_
    refine .bind (forms_moreDeleted n) fun others hothers => ?_
    refine .bind (forms_checkTargets _ _) fun _ assignable => .pure ?_
    apply formed_simple rfl
    · exact ⟨List.cons_ne_nil _ _, assignable⟩
    · exact formed_exprs (List.forall_mem_cons.2 ⟨hfirst, hothers⟩)
  case h_6 =>
    refine .skip .advance fun _ => .skip .isAtStatementEnd fun ended => ?_
    split
    · exact .pure (formed_simple rfl trivial (formed_option nofun))
    · refine .bind (allForm n).test fun e he => .pure ?_
      exact formed_simple rfl trivial (formed_option (one he))
  case h_7 =>
    refine .skip .advance fun _ => .bind (allForm n).test fun condition h => ?_
    refine .bind (.following (allForm n).test) fun message hmessage => .pure ?_
    refine formed_simple rfl trivial ?_
    exact List.forall_mem_cons.2 ⟨h, formed_option hmessage⟩
  case h_8 =>
    refine .skip .advance fun _ => .bind (forms_importList n (forms_dottedName n)) fun items h => ?_
    exact .pure (formed_importNames h)
  case h_9 => exact .skip .advance fun _ => forms_importFrom n p
  case h_10 | h_11 =>
    refine .skip .advance fun _ => .bind (forms_nameList n) fun names h => .pure ?_
    exact formed_simple rfl h (List.forall_mem_nil _)
  case h_12 => exact forms_expressionStatement n p

theorem forms_moreSmall : Forms AnyKind (moreSmall n) FormedStmts := by
  induction n with
  | zero => exact .failHere
  | succ n ih =>
    unfold moreSmall
    refine .skip .accept fun more => ?_
    split
    · refine .skip .isAt fun atNewline => .skip .isAt fun atEnd => ?_
      split
      · exact .pure (List.forall_mem_nil _)
      · refine .bind (forms_smallStatement n) fun s hs => .bind ih fun ss hss => .pure ?_
        exact List.forall_mem_cons.2 ⟨hs, hss⟩
    · exact .pure (List.forall_mem_nil _)

theorem forms_simpleStatements :
    Forms AnyKind (simpleStatements n) fun ss => ss ≠ [] ∧ FormedStmts ss := by
  unfold simpleStatements
  refine .bind (forms_smallStatement n) fun s hs => .bind (forms_moreSmall n) fun ss hss => ?_
  have all : s :: ss ≠ [] ∧ FormedStmts (s :: ss) :=
    ⟨List.cons_ne_nil _ _, List.forall_mem_cons.2 ⟨hs, hss⟩⟩
  refine .skip .isAt fun atEnd => ?_
  dsimp only
  split
  · exact .pure all
  · exact .skip .expect fun _ => .pure all

end

end Parser

end Footprint
