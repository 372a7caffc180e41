import Mathlib.Data.List.Nodup
import Footprint.Proofs.FormedStatements

set_option autoImplicit false

/-!
Scripts that have been parsed have the form that `Node.Shaped` says, at every node. An indented
block is not empty because no block ends where it begins.
-/

namespace Footprint

open Token

/-! ### Statements with blocks -/

namespace Node

/-- The nodes of a statement that is no function have been made. -/
theorem formed_block {s : Stmt} (other : ∀ head body, s ≠ .function head body) (own : s.Shaped)
    (parts : ∀ m ∈ s.parts, m.Formed) : (stmt s).Formed :=
  formed_of_children ⟨own, fun head body h => absurd (stmt.inj h) (other head body)⟩ parts

theorem formed_param {p : Param} (named : isIdentifier p.name = true)
    (hint : ∀ e ∈ p.annotation, e.Formed) (default : ∀ e ∈ p.default, e.Formed) :
    (param p).Formed := by
  refine formed_of_children ⟨named, fun _ _ h => nomatch h⟩ ?_
  exact List.forall_mem_append.2 ⟨formed_option hint, formed_option default⟩

theorem formed_withItem {i : WithItem} (context : i.context.Formed)
    (target : ∀ e ∈ i.target, e.Formed ∧ e.isAssignable = true) : (withItem i).Formed := by
  refine formed_of_children ⟨fun e he => (target e he).2, fun _ _ h => nomatch h⟩ ?_
  exact List.forall_mem_cons.2 ⟨context, formed_option fun e he => (target e he).1⟩

/-- What a block holds. -/
abbrev FormedBlock (ss : List Stmt) : Prop := ss ≠ [] ∧ FormedStmts ss

section

variable {body orelse final : List Stmt} {p : Position}

theorem formed_handler {kind : Option Expr} {name : Option String}
    (hkind : ∀ e ∈ kind, e.Formed) (hname : ∀ s ∈ name, isIdentifier s = true ∧ kind ≠ none)
    (h : FormedBlock body) : (handler (.clause kind name body p)).Formed := by
  refine formed_of_children ⟨⟨hname, h.1⟩, fun _ _ h => nomatch h⟩ ?_
  exact List.forall_mem_append.2 ⟨formed_option hkind, List.forall_mem_map.2 h.2⟩

theorem formed_function {head : FunctionHead} (own : head.bound = .ofFunction head.params body)
    (named : isIdentifier head.name = true) (ordered : WellOrdered head.params)
    (ds : FormedAll head.decorators) (ps : ∀ p ∈ head.params, (param p).Formed)
    (returns : ∀ e ∈ head.returns, e.Formed) (h : FormedBlock body) :
    (stmt (.function head body)).Formed := by
  apply formed_of_children
  · refine ⟨⟨named, ordered, h.1⟩, ?_⟩
    rintro head body same
    cases same
    exact own
  · simp only [children, Stmt.parts, List.forall_mem_append, List.forall_mem_map]
    exact ⟨⟨⟨ds, ps⟩, List.forall_mem_map.1 (formed_option returns)⟩, h.2⟩

theorem formed_classDef {head : ClassHead} (named : isIdentifier head.name = true)
    (ds : FormedAll head.decorators) (bases : FormedAll head.bases) (h : FormedBlock body) :
    (stmt (.classDef head body)).Formed := by
  refine formed_block (fun _ _ h => nomatch h) ⟨named, h.1⟩ ?_
  simp only [Stmt.parts, List.forall_mem_append, List.forall_mem_map]
  exact ⟨⟨ds, bases⟩, h.2⟩

theorem formed_forLoop {target iter : Expr} (htarget : target.Formed)
    (assignable : target.isAssignable = true) (hiter : iter.Formed) (h : FormedBlock body)
    (h' : FormedStmts orelse) : (stmt (.forLoop target iter body orelse p)).Formed := by
  refine formed_block (fun _ _ h => nomatch h) ⟨assignable, h.1⟩ ?_
  simp only [Stmt.parts, List.forall_mem_append, List.forall_mem_map, List.forall_mem_cons]
  exact ⟨⟨⟨htarget, hiter, List.forall_mem_nil _⟩, h.2⟩, h'⟩

theorem formed_whileLoop {test : Expr} (htest : test.Formed) (h : FormedBlock body)
    (h' : FormedStmts orelse) : (stmt (.whileLoop test body orelse p)).Formed := by
  refine formed_block (fun _ _ h => nomatch h) h.1 ?_
  simp only [Stmt.parts, List.forall_mem_append, List.forall_mem_map, List.forall_mem_singleton]
  exact ⟨⟨htest, h.2⟩, h'⟩

theorem formed_cond {test : Expr} (htest : test.Formed) (h : FormedBlock body)
    (h' : FormedStmts orelse) : (stmt (.cond test body orelse p)).Formed := by
  refine formed_block (fun _ _ h => nomatch h) h.1 ?_
  simp only [Stmt.parts, List.forall_mem_append, List.forall_mem_map, List.forall_mem_singleton]
  exact ⟨⟨htest, h.2⟩, h'⟩

theorem formed_withBlock {items : List WithItem} (some : items ≠ [])
    (hitems : ∀ i ∈ items, (withItem i).Formed) (h : FormedBlock body) :
    (stmt (.withBlock items body p)).Formed := by
  refine formed_block (fun _ _ h => nomatch h) ⟨some, h.1⟩ ?_
  simp only [Stmt.parts, List.forall_mem_append, List.forall_mem_map]
  exact ⟨hitems, h.2⟩

theorem formed_tryBlock {handlers : List Handler} (h : FormedBlock body)
    (hh : ∀ c ∈ handlers, (handler c).Formed) (h' : FormedStmts orelse) (h'' : FormedStmts final)
    (guarded : handlers ≠ [] ∨ final ≠ []) (attached : orelse ≠ [] → handlers ≠ []) :
    (stmt (.tryBlock body handlers orelse final p)).Formed := by
  refine formed_block (fun _ _ h => nomatch h) ⟨h.1, guarded, attached⟩ ?_
  simp only [Stmt.parts, List.forall_mem_append, List.forall_mem_map]
  exact ⟨⟨⟨h.2, hh⟩, h'⟩, h''⟩

end

end Node

namespace Parser

open Token Node

/-! ### Headers -/

theorem wellOrdered_reverse_cons {before : List Param} {p : Param}
    (h : WellOrdered before.reverse) (new : before.any (·.name == p.name) = false)
    (placed : (p.default.isNone && before.head?.any (·.default.isSome)) = false) :
    WellOrdered (p :: before).reverse := by
  obtain ⟨distinct, defaults⟩ := h
  rw [List.map_reverse, List.nodup_reverse] at distinct
  rw [List.pairwise_reverse] at defaults
  constructor
  · rw [List.map_reverse, List.nodup_reverse, List.map_cons, List.nodup_cons]
    refine ⟨fun old => ?_, distinct⟩
    obtain ⟨q, hq, same⟩ := List.mem_map.1 old
    simpa [same] using List.any_eq_false.1 new q hq
  · rw [List.pairwise_reverse, List.pairwise_cons]
    refine ⟨fun q hq given => ?_, defaults⟩
    cases before with
    | nil => cases hq
    | cons last before =>
      have lastGiven : last.default.isSome = true := by
        rcases List.mem_cons.1 hq with rfl | hq
        · exact given
        · exact (List.pairwise_cons.1 defaults).1 q hq given
      simpa [lastGiven] using placed

theorem forms_parameters {before : List Param} (h : WellOrdered before.reverse) (n : Nat) :
    Forms AnyKind (parameters before n) fun ps =>
      WellOrdered (before.reverse ++ ps) ∧ ∀ p ∈ ps, (param p).Formed := by
  induction n generalizing before with
  | zero => exact .failHere
  | succ n ih =>
    unfold parameters
    refine .skip .isAt fun ended => ?_
    split
    · exact .pure ⟨(List.append_nil _).symm ▸ h, List.forall_mem_nil _⟩
    · refine .skip .here fun p => .bind .identifier fun name hname => ?_
      split
      · exact .fail
      · next new =>
        refine .bind (.following (allForm n).test) fun hint hhint => ?_
        refine .bind (.following (allForm n).test) fun default hdefault => ?_
        split
        · exact .fail
        · next placed =>
          have formed := formed_param (p := ⟨name, hint, default, p⟩) hname hhint hdefault
          have ordered := wellOrdered_reverse_cons (p := ⟨name, hint, default, p⟩) h
            (eq_false_of_ne_true new) (eq_false_of_ne_true placed)
          have front (ps : List Param) :
              (⟨name, hint, default, p⟩ :: before).reverse ++ ps =
                before.reverse ++ ⟨name, hint, default, p⟩ :: ps := by simp
          refine .skip .accept fun more => ?_
          split
          · refine .bind (ih ordered) fun ps hps => .pure ?_
            exact ⟨front ps ▸ hps.1, List.forall_mem_cons.2 ⟨formed, hps.2⟩⟩
          · refine .pure ⟨?_, List.forall_mem_singleton.2 formed⟩
            rw [← front, List.append_nil]
            exact ordered

section

variable (n : Nat)

theorem forms_decorators : Forms AnyKind (decorators n) FormedAll := by
  induction n with
  | zero => exact .failHere
  | succ n ih =>
    unfold decorators
    refine .skip .accept fun more => ?_
    split
    · refine .bind (allForm n).test fun d hd => .skip .expect fun _ => ?_
      exact .bind ih fun ds hds => .pure (List.forall_mem_cons.2 ⟨hd, hds⟩)
    · exact .pure (List.forall_mem_nil _)

theorem forms_withItems : Forms AnyKind (withItems n) fun items =>
    items ≠ [] ∧ ∀ i ∈ items, (withItem i).Formed := by
  induction n with
  | zero => exact .failHere
  | succ n ih =>
    have forms_target : Forms AnyKind (do
        let target ← arith n
        checkTargets .cannotAssign [target]
        return target) fun e => e.Formed ∧ e.isAssignable = true :=
      .bind (allForm n).arith fun e he => .bind (forms_checkTargets _ _) fun _ assignable =>
        .pure ⟨he, assignable e List.mem_cons_self⟩
    unfold withItems
    refine .bind (allForm n).test fun context hcontext => ?_
    refine .bind (.following forms_target) fun target htarget => ?_
    have formed := formed_withItem (i := ⟨context, target⟩) hcontext htarget
    refine .skip .accept fun more => ?_
    split
    · refine .bind ih fun items hitems => .pure ?_
      exact ⟨List.cons_ne_nil _ _, List.forall_mem_cons.2 ⟨formed, hitems.2⟩⟩
    · exact .pure ⟨List.cons_ne_nil _ _, List.forall_mem_singleton.2 formed⟩

theorem forms_caught : Forms AnyKind (caught n) fun r =>
    (∀ e ∈ r.1, e.Formed) ∧ ∀ s ∈ r.2, isIdentifier s = true ∧ r.1 ≠ none := by
  unfold caught
  refine .skip .isAt fun ended => ?_
  split
  · exact .pure ⟨nofun, nofun⟩
  · refine .bind (allForm n).test fun kind hkind => ?_
    refine .bind (.following .identifier) fun name hname => .pure ⟨?_, fun s hs => ?_⟩
    · rintro e ⟨⟩
      exact hkind
    · exact ⟨hname s hs, nofun⟩

theorem forms_baseClasses : Forms AnyKind (baseClasses n) FormedAll := by
  unfold baseClasses
  refine .skip .accept fun isOpen => ?_
  split
  · exact .bind ((allForm n).testsUntil _) fun bases h => .skip .expect fun _ => .pure h
  · exact .pure (List.forall_mem_nil _)

theorem forms_moreTargets : Forms AnyKind (moreTargets n) FormedAll := by
  induction n with
  | zero => exact .failHere
  | succ n ih =>
    unfold moreTargets
    refine .skip .accept fun comma => ?_
    split
    · refine .skip .isAtExpression fun isTarget => ?_
      split
      · refine .bind (allForm n).arith fun e he => .bind ih fun es hes => .pure ?_
        exact List.forall_mem_cons.2 ⟨he, hes⟩
      · exact .pure (List.forall_mem_nil _)
    · exact .pure (List.forall_mem_nil _)

theorem forms_targetList : Forms AnyKind (targetList n) Expr.Formed := by
  unfold targetList
  refine .bind (allForm n).arith fun e he => .skip .isAt fun comma => ?_
  split
  · refine .bind (forms_moreTargets n) fun es hes => .pure ?_
    exact formed_tuple (List.forall_mem_cons.2 ⟨he, hes⟩)
  · exact .pure he

end

/-! ### Statements -/

/-- `Forms` for parsers that number definitions, whatever the numbers. -/
def FormsOn {α : Type} (ahead : Kind → Prop) (x : Numbering α) (Q : α → Prop) : Prop :=
  ∀ code, Forms ahead (x code) fun r => Q r.1

namespace FormsOn

variable {α β : Type} {K : Kind → Prop} {Q : α → Prop}

theorem imp {P : α → Prop} {x : Numbering α} (h : FormsOn K x P) (weaker : ∀ a, P a → Q a) :
    FormsOn K x Q := fun code => (h code).imp fun r => weaker r.1

theorem anyhow {x : Numbering α} (h : FormsOn AnyKind x Q) : FormsOn K x Q :=
  fun code => (h code).anyhow

theorem pure {a : α} (h : Q a) : FormsOn K (pure a) Q := fun _ => Forms.pure h

theorem lift {x : Parse α} (hx : Forms K x Q) : FormsOn K (liftM x) Q := by
  intro code
  change Forms K (x >>= fun a => Pure.pure (a, code)) _
  exact .bind hx fun _ h => .pure h

theorem bind {P : β → Prop} {x : Numbering β} {f : β → Numbering α} (hx : FormsOn K x P)
    (hf : ∀ b, P b → FormsOn AnyKind (f b) Q) : FormsOn K (x >>= f) Q :=
  fun code => Forms.bind (hx code) fun r hr => hf r.1 hr r.2

theorem read {P : β → Prop} {x : Parse β} {f : β → Numbering α} (hx : Forms K x P)
    (hf : ∀ b, P b → FormsOn AnyKind (f b) Q) : FormsOn K (liftM x >>= f) Q := (lift hx).bind hf

theorem skip {x : Parse β} {f : β → Numbering α} (hx : Forms K x fun _ => True)
    (hf : ∀ b, FormsOn AnyKind (f b) Q) : FormsOn K (liftM x >>= f) Q := read hx fun b _ => hf b

theorem fresh {f : CodeId → Numbering α} (hf : ∀ code, FormsOn AnyKind (f code) Q) :
    FormsOn K (freshCode >>= f) Q := fun code => (hf code (code + 1)).anyhow

theorem tooDeep : FormsOn K (liftM (failHere .nestingTooDeep : Parse α)) Q := lift .failHere

/-- What begins a block goes on. -/
theorem indented {place : Place} {x : Numbering α} (hx : FormsOn Kind.GoesOn x Q) :
    FormsOn K (do expect .indent place; x) Q := by
  intro code c c' r hc _ read
  obtain ⟨r', hr, read⟩ := ok_of_bind read
  obtain ⟨passed, expected, hr⟩ := ok_of_bind hr
  cases hr
  change Parser.expect .indent place c = _ at expected
  unfold Parser.expect at expected
  split at expected
  · next ahead =>
    cases expected
    obtain ⟨sound, goesOn⟩ := hc.next
    exact hx code sound (goesOn (Kind.isMark_iff.1 ahead)) read
  · cases expected

/-- The mark is not ahead. -/
theorem without {m : Mark} {f : Bool → Numbering α} (absent : ∀ k, K k → k ≠ .mark m)
    (hf : FormsOn K (f false) Q) : FormsOn K (liftM (isAt m) >>= f) Q := by
  intro code c c' r hc hk read
  have notAhead : c.front.kind.isMark m = false :=
    eq_false_of_ne_true fun same => absent _ hk (Kind.isMark_iff.1 same)
  change f (c.front.kind.isMark m) code c = _ at read
  rw [notAhead] at read
  exact hf code hc hk read

end FormsOn

/-- The parsers of statements, with their depth, make them; what is not the end of a block begins
with a statement. -/
structure AllFormStmts (n : Nat) : Prop where
  statement : FormsOn AnyKind (statement n) FormedBlock
  block (place : Place) : FormsOn AnyKind (block n place) FormedBlock
  statements : FormsOn AnyKind (statements n) FormedStmts
  started : FormsOn Kind.GoesOn (Parser.statements n) FormedBlock
  elseBlock : FormsOn AnyKind (elseBlock n) FormedStmts
  ifStatement (p : Position) : FormsOn AnyKind (ifStatement n p) fun s => (stmt s).Formed
  handlers : FormsOn AnyKind (handlers n) fun hs => ∀ h ∈ hs, (handler h).Formed
  tryStatement (p : Position) : FormsOn AnyKind (tryStatement n p) fun s => (stmt s).Formed
  definition : FormsOn AnyKind (definition n) fun s => (stmt s).Formed
  functionDefinition (isAsync : Bool) {ds : List Expr} (h : FormedAll ds) (p : Position) :
    FormsOn AnyKind (functionDefinition n isAsync ds p) fun s => (stmt s).Formed
  classDefinition {ds : List Expr} (h : FormedAll ds) (p : Position) :
    FormsOn AnyKind (classDefinition n ds p) fun s => (stmt s).Formed

theorem formedBlock_singleton {s : Stmt} (h : (stmt s).Formed) : FormedBlock [s] :=
  ⟨List.cons_ne_nil _ _, List.forall_mem_singleton.2 h⟩

theorem formedBlock_append {ss ts : List Stmt} (h : FormedBlock ss) (h' : FormedStmts ts) :
    FormedBlock (ss ++ ts) :=
  ⟨List.append_ne_nil_of_left_ne_nil h.1 ts, List.forall_mem_append.2 ⟨h.2, h'⟩⟩

namespace AllFormStmts

variable {n : Nat} (ih : AllFormStmts n)

include ih

theorem next_block (place : Place) : FormsOn AnyKind (Parser.block (n + 1) place) FormedBlock := by
  unfold Parser.block
  refine .skip .expect fun _ => .skip .accept fun onOwnLine => ?_
  split
  · apply FormsOn.indented
    exact .bind ih.started fun body h => .skip .expect fun _ => .pure h
  · exact .lift (forms_simpleStatements n)

/-- A statement and those after it. -/
theorem next_more : FormsOn AnyKind (do
    let first ← Parser.statement n
    return first ++ (← Parser.statements n)) FormedBlock :=
  .bind ih.statement fun _ h => .bind ih.statements fun _ h' => .pure (formedBlock_append h h')

theorem next_statements : FormsOn AnyKind (Parser.statements (n + 1)) FormedStmts := by
  unfold Parser.statements
  refine .skip .isAt fun atDedent => .skip .isAt fun atEnd => ?_
  split
  · exact .pure (List.forall_mem_nil _)
  · exact ih.next_more.imp fun ss h => h.2

theorem next_started : FormsOn Kind.GoesOn (Parser.statements (n + 1)) FormedBlock := by
  unfold Parser.statements
  exact .without (fun k goesOn => goesOn.1) (.without (fun k goesOn => goesOn.2) ih.next_more.anyhow)

theorem next_elseBlock : FormsOn AnyKind (Parser.elseBlock (n + 1)) FormedStmts := by
  unfold Parser.elseBlock
  refine .skip .accept fun isElse => ?_
  split
  · exact (ih.block .elseWord).imp fun ss h => h.2
  · exact .pure (List.forall_mem_nil _)

theorem next_ifStatement (p : Position) :
    FormsOn AnyKind (Parser.ifStatement (n + 1) p) fun s => (stmt s).Formed := by
  unfold Parser.ifStatement
  refine .read (allForm n).test fun condition htest => .bind (ih.block .ifTest) fun body h => ?_
  refine .skip .here fun q => .skip .accept fun isElif => ?_
  split
  · refine .bind (ih.ifStatement q) fun inner h' => .pure ?_
    exact formed_cond htest h (formedBlock_singleton h').2
  · exact .bind ih.elseBlock fun orelse h' => .pure (formed_cond htest h h')

theorem next_handlers :
    FormsOn AnyKind (Parser.handlers (n + 1)) fun hs => ∀ h ∈ hs, (handler h).Formed := by
  unfold Parser.handlers
  refine .skip .here fun p => .skip .accept fun isExcept => ?_
  split
  · refine .read (forms_caught n) fun r hr => .bind (ih.block .exceptClause) fun body h => ?_
    refine .bind ih.handlers fun hs hhs => .pure ?_
    exact List.forall_mem_cons.2 ⟨formed_handler hr.1 hr.2 h, hhs⟩
  · exact .pure (List.forall_mem_nil _)

theorem next_tryStatement (p : Position) :
    FormsOn AnyKind (Parser.tryStatement (n + 1) p) fun s => (stmt s).Formed := by
  unfold Parser.tryStatement
  refine .bind (ih.block .tryWord) fun body h => .bind ih.handlers fun handlers hh => ?_
  have ending {orelse : List Stmt} (h' : FormedStmts orelse)
      (attached : orelse ≠ [] → handlers ≠ []) (final : List Stmt) (h'' : FormedStmts final) :
      FormsOn AnyKind (if (handlers.isEmpty && final.isEmpty) = true then
          liftM (failHere (α := Stmt) .missingHandler)
          else pure (.tryBlock body handlers orelse final p))
        fun s => (stmt s).Formed := by
    split
    · exact .lift .failHere
    · next guarded =>
      refine .pure (formed_tryBlock h hh h' h'' ?_ attached)
      rw [Bool.and_eq_true, List.isEmpty_iff, List.isEmpty_iff] at guarded
      exact not_and_or.1 guarded
  -- what is read after the else block, whatever that is
  have finishing {orelse : List Stmt} (h' : FormedStmts orelse)
      (attached : orelse ≠ [] → handlers ≠ []) :
      FormsOn AnyKind (do
        let final ← if ← accept (.keyword .finallyKw) then Parser.block n .finallyWord else pure []
        if (handlers.isEmpty && final.isEmpty) = true then failHere .missingHandler
        else return .tryBlock body handlers orelse final p) fun s => (stmt s).Formed := by
    refine .skip .accept fun isFinal => ?_
    split
    · exact .bind (ih.block .finallyWord) fun final h'' => ending h' attached final h''.2
    · exact .bind (.pure (List.forall_mem_nil _)) (ending h' attached)
  split
  · refine .bind (P := (· = [])) (.pure rfl) ?_
    rintro orelse rfl
    exact finishing (List.forall_mem_nil _) fun some => absurd rfl some
  · next some =>
    refine .bind ih.elseBlock fun orelse h' => finishing h' fun _ none => ?_
    exact some (List.isEmpty_iff.2 none)

theorem next_definition :
    FormsOn AnyKind (Parser.definition (n + 1)) fun s => (stmt s).Formed := by
  unfold Parser.definition
  refine .read (forms_decorators n) fun ds hds => .skip .here fun p => ?_
  refine .skip Forms.peek.leaves fun k => ?_
  split
  · exact .skip .advance fun _ => ih.functionDefinition false hds p
  · exact .skip .advance fun _ => .skip .expect fun _ => ih.functionDefinition true hds p
  · exact .skip .advance fun _ => ih.classDefinition hds p
  · exact .lift .failFound

theorem next_functionDefinition (isAsync : Bool) {ds : List Expr} (hds : FormedAll ds)
    (p : Position) :
    FormsOn AnyKind (Parser.functionDefinition (n + 1) isAsync ds p) fun s => (stmt s).Formed := by
  have first : WellOrdered ([] : List Param).reverse := ⟨List.nodup_nil, List.Pairwise.nil⟩
  unfold Parser.functionDefinition
  refine .read .identifier fun name hname => .fresh fun code => .skip .expect fun _ => ?_
  refine .read (forms_parameters first n) fun params hparams => .skip .expect fun _ => ?_
  refine .read (.following (allForm n).test) fun returns hreturns => ?_
  refine .bind (ih.block .functionBody) fun body h => .skip .lastLine fun endLine => .pure ?_
  exact formed_function rfl hname hparams.1 hds hparams.2 hreturns h

theorem next_classDefinition {ds : List Expr} (hds : FormedAll ds) (p : Position) :
    FormsOn AnyKind (Parser.classDefinition (n + 1) ds p) fun s => (stmt s).Formed := by
  unfold Parser.classDefinition
  refine .read .identifier fun name hname => .fresh fun code => ?_
  refine .read (forms_baseClasses n) fun bases hbases => ?_
  refine .bind (ih.block .classBody) fun body h => .skip .lastLine fun endLine => .pure ?_
  exact formed_classDef hname hds hbases h

theorem next_statement : FormsOn AnyKind (Parser.statement (n + 1)) FormedBlock := by
  have single {x : Numbering Stmt} (hx : FormsOn AnyKind x fun s => (stmt s).Formed) :
      FormsOn AnyKind (x >>= fun s => pure [s]) FormedBlock :=
    .bind hx fun s h => .pure (formedBlock_singleton h)
  unfold Parser.statement
  refine .skip .here fun p => .skip Forms.peek.leaves fun k => ?_
  split
  case h_1 | h_2 | h_3 | h_4 => exact single ih.definition
  case h_5 => exact .skip .advance fun _ => single (ih.ifStatement p)
  case h_6 =>
    refine .skip .advance fun _ => .read (allForm n).test fun condition htest => ?_
    refine .bind (ih.block .whileTest) fun body h => .bind ih.elseBlock fun orelse h' => .pure ?_
    exact formedBlock_singleton (formed_whileLoop htest h h')
  case h_7 =>
    refine .skip .advance fun _ => .read (forms_targetList n) fun target htarget => ?_
    refine .read (forms_checkTargets _ _) fun _ assignable => .skip .expect fun _ => ?_
    refine .read (allForm n).testList fun iter hiter => .bind (ih.block .forClause) fun body h => ?_
    refine .bind ih.elseBlock fun orelse h' => .pure (formedBlock_singleton ?_)
    exact formed_forLoop htarget (assignable target List.mem_cons_self) hiter h h'
  case h_8 => exact .skip .advance fun _ => single (ih.tryStatement p)
  case h_9 =>
    refine .skip .advance fun _ => .read (forms_withItems n) fun items hitems => ?_
    refine .bind (ih.block .withItems) fun body h => .pure (formedBlock_singleton ?_)
    exact formed_withBlock hitems.1 hitems.2 h
  case h_10 | h_11 => exact .lift .failHere
  case h_12 => exact .lift (forms_simpleStatements n)

end AllFormStmts

theorem allFormStmts (n : Nat) : AllFormStmts n := by
  induction n with
  | zero => constructor <;> intros <;> exact .tooDeep
  | succ n ih =>
    exact ⟨ih.next_statement, ih.next_block, ih.next_statements, ih.next_started,
      ih.next_elseBlock, ih.next_ifStatement, ih.next_handlers, ih.next_tryStatement,
      ih.next_definition, ih.next_functionDefinition, ih.next_classDefinition⟩

theorem forms_program (n : Nat) : FormsOn AnyKind (program n) FormedStmts := by
  induction n with
  | zero => exact .tooDeep
  | succ n ih =>
    unfold program
    refine .skip .isAt fun atEnd => ?_
    split
    · exact .pure (List.forall_mem_nil _)
    · exact .bind (allFormStmts n).statement fun ss h => .bind ih fun ts h' =>
        .pure (formedBlock_append h h').2

end Parser

/-- A script that has been parsed is as the parser makes it, at every node. -/
theorem formed_of_parse {source : String} {script : Script} (h : parse source = .ok script) :
    (Node.script script).Formed := by
  obtain ⟨tokens, tokenized, depth, n, c, read⟩ := exists_of_parse h
  have begins := Parser.sound_of_tokenize tokenized
  obtain ⟨-, formed⟩ := Parser.forms_program depth _ begins trivial read
  refine Node.formed_of_children ⟨trivial, fun _ _ h => nomatch h⟩ ?_
  exact List.forall_mem_map.2 formed

/-- Each function of a script that has been parsed has the names stored that it binds. -/
theorem isBound_of_parse {source : String} {script : Script} (h : parse source = .ok script) :
    (Node.script script).IsBound :=
  fun head body within => (formed_of_parse h _ within).bound head body rfl

end Footprint
