import Footprint.Parser.Stmt
import Footprint.Proofs.Owners

set_option autoImplicit false

/-!
The parser numbers the definitions of a script from one, in the order of their headers. Whatever a
parser of statements has read, the numbers in it are those that it has given, one after the other.
-/

namespace Footprint

namespace Node

/-- The numbers of the definitions in statements, outer ones before inner ones. -/
def codesOf (ss : List Stmt) : List CodeId := ss.flatMap fun s => (stmt s).codes

theorem flatMap_none {α : Type} (as : List α) : (as.flatMap fun _ => ([] : List CodeId)) = [] := by
  simp

@[simp] theorem codes_expr (e : Expr) : (expr e).codes = [] := by
  rw [codes_eq]
  change (e.parts.map expr).flatMap codes = []
  rw [List.flatMap_eq_nil_iff]
  intro n hn
  obtain ⟨d, hd, rfl⟩ := List.mem_map.1 hn
  have := sizeOf_lt_of_mem_exprParts hd
  exact codes_expr d
termination_by sizeOf e

@[simp] theorem codes_param (p : Param) : (param p).codes = [] := by
  rw [codes_eq]
  simp [code?, children, List.flatMap_map]

@[simp] theorem codes_withItem (i : WithItem) : (withItem i).codes = [] := by
  rw [codes_eq]
  simp [code?, children, List.flatMap_map]

@[simp] theorem codes_imported (a : Import) : (imported a).codes = [] := by
  rw [codes_eq]
  rfl

@[simp] theorem codes_handler (h : Handler) : (handler h).codes = codesOf h.body := by
  rw [codes_eq]
  simp [code?, children, codesOf, List.flatMap_map]

section

variable {body orelse final : List Stmt}

theorem codes_function (head : FunctionHead) :
    (stmt (.function head body)).codes = head.code :: codesOf body := by
  rw [codes_eq]
  simp [code?, children, Stmt.parts, codesOf, List.flatMap_map, flatMap_none, Code.id]

theorem codes_classDef (head : ClassHead) :
    (stmt (.classDef head body)).codes = head.code :: codesOf body := by
  rw [codes_eq]
  simp [code?, children, Stmt.parts, codesOf, List.flatMap_map, flatMap_none, Code.id]

theorem codes_forLoop (target iter : Expr) (p : Position) :
    (stmt (.forLoop target iter body orelse p)).codes = codesOf body ++ codesOf orelse := by
  rw [codes_eq]
  simp [code?, children, Stmt.parts, codesOf, List.flatMap_map]

theorem codes_whileLoop (test : Expr) (p : Position) :
    (stmt (.whileLoop test body orelse p)).codes = codesOf body ++ codesOf orelse := by
  rw [codes_eq]
  simp [code?, children, Stmt.parts, codesOf, List.flatMap_map]

theorem codes_cond (test : Expr) (p : Position) :
    (stmt (.cond test body orelse p)).codes = codesOf body ++ codesOf orelse := by
  rw [codes_eq]
  simp [code?, children, Stmt.parts, codesOf, List.flatMap_map]

theorem codes_withBlock (items : List WithItem) (p : Position) :
    (stmt (.withBlock items body p)).codes = codesOf body := by
  rw [codes_eq]
  simp [code?, children, Stmt.parts, codesOf, List.flatMap_map]

theorem codes_tryBlock (handlers : List Handler) (p : Position) :
    (stmt (.tryBlock body handlers orelse final p)).codes =
      codesOf body ++ (handlers.flatMap fun h => codesOf h.body) ++ codesOf orelse ++
        codesOf final := by
  rw [codes_eq]
  simp [code?, children, Stmt.parts, codesOf, List.flatMap_map]

end

/-- The statement is no definition and has no statements in it. -/
def isSimple : Stmt → Bool
  | .function .. | .classDef .. | .forLoop .. | .whileLoop .. | .cond .. | .withBlock ..
  | .tryBlock .. => false
  | _ => true

theorem codes_of_isSimple {s : Stmt} (h : isSimple s = true) : (stmt s).codes = [] := by
  rw [codes_eq]
  cases s <;> first
    | (change false = true at h; contradiction)
    | simp [code?, children, Stmt.parts, List.flatMap_map, flatMap_none]

end Node

namespace Parser

variable {α β : Type}

/-- Whatever the parser reads is so. -/
def Gives (x : Parse α) (Q : α → Prop) : Prop := ∀ c a c', x c = .ok (a, c') → Q a

/-- After the numbers `before` and those that the parser has given to definitions, one after the
other, the numbers are those that `after` says of what it has read. -/
def Numbers (before : List CodeId) (x : Numbering α) (after : α → List CodeId) : Prop :=
  ∀ n c a n' c', x n c = .ok ((a, n'), c') →
    ∃ k, n' = n + k ∧ after a = before ++ List.range' n k

namespace Gives

variable {Q : α → Prop}

theorem pure {a : α} (h : Q a) : Gives (pure a) Q := by
  intro c b c' hb
  cases hb
  exact h

theorem bind {x : Parse β} {f : β → Parse α} (h : ∀ b, Gives (f b) Q) : Gives (x >>= f) Q := by
  intro c a c' ha
  change (x c >>= fun r => f r.1 r.2) = _ at ha
  cases hx : x c with
  | error e =>
    rw [hx] at ha
    cases ha
  | ok r =>
    rw [hx] at ha
    exact h r.1 r.2 a c' ha

theorem seq {R : β → Prop} {x : Parse β} {f : β → Parse α} (hx : Gives x R)
    (h : ∀ b, R b → Gives (f b) Q) : Gives (x >>= f) Q := by
  intro c a c' ha
  change (x c >>= fun r => f r.1 r.2) = _ at ha
  cases hr : x c with
  | error e =>
    rw [hr] at ha
    cases ha
  | ok r =>
    rw [hr] at ha
    exact h r.1 (hx c r.1 r.2 hr) r.2 a c' ha

end Gives

namespace Numbers

variable {before : List CodeId} {after : α → List CodeId}

theorem pure {a : α} (h : after a = before) : Numbers before (pure a) after := by
  intro n c b n' c' hb
  cases hb
  exact ⟨0, rfl, by simp [h]⟩

theorem bind {between : β → List CodeId} {x : Numbering β} {f : β → Numbering α}
    (hx : Numbers before x between) (hf : ∀ b, Numbers (between b) (f b) after) :
    Numbers before (x >>= f) after := by
  intro n c a n' c' ha
  change (x n c >>= fun r => f r.1.1 r.1.2 r.2) = _ at ha
  cases hr : x n c with
  | error e =>
    rw [hr] at ha
    cases ha
  | ok r =>
    obtain ⟨⟨b, m⟩, d⟩ := r
    rw [hr] at ha
    obtain ⟨j, rfl, hj⟩ := hx n c b m d hr
    obtain ⟨k, rfl, hk⟩ := hf b (n + j) d a n' c' ha
    refine ⟨j + k, Nat.add_assoc n j k, ?_⟩
    rw [hk, hj, List.append_assoc, List.range'_append_1]

/-- A parser that reads no definitions. -/
theorem lift {x : Parse α} (h : Gives x (after · = before)) :
    Numbers before (liftM x) after := by
  intro n c a n' c' ha
  change (x c >>= fun r => .ok ((r.1, n), r.2)) = _ at ha
  cases hr : x c with
  | error e =>
    rw [hr] at ha
    cases ha
  | ok r =>
    rw [hr] at ha
    cases ha
    exact ⟨0, rfl, by simp [h c r.1 r.2 hr]⟩

theorem skip {x : Parse β} {f : β → Numbering α} (hf : ∀ b, Numbers before (f b) after) :
    Numbers before (liftM x >>= f) after :=
  have read : Numbers before (liftM x) fun _ => before := lift fun _ _ _ _ => rfl
  read.bind hf

/-- Numbers from before count on. -/
theorem frame {x : Numbering β} {codes : β → List CodeId} (hx : Numbers [] x codes) :
    Numbers before x fun b => before ++ codes b := by
  intro n c b n' c' hb
  obtain ⟨k, hk, hcodes⟩ := hx n c b n' c' hb
  exact ⟨k, hk, congrArg (before ++ ·) hcodes⟩

theorem fresh {f : CodeId → Numbering α} (hf : ∀ n, Numbers (before ++ [n]) (f n) after) :
    Numbers before (freshCode >>= f) after := by
  have given : Numbers before freshCode fun n => before ++ [n] := by
    intro n c m n' c' h
    cases h
    exact ⟨1, rfl, rfl⟩
  exact given.bind hf

end Numbers

/-! ### Simple statements -/

open Token Node

theorem gives_importFrom (n : Nat) (p : Position) : Gives (importFrom n p) (isSimple · = true) := by
  unfold importFrom
  refine .bind fun source => .bind fun _ => .bind fun star => .bind fun isStar => ?_
  split
  · exact .pure rfl
  · refine .bind fun isOpen => ?_
    split
    · exact .bind fun _ => .bind fun _ => .pure rfl
    · exact .bind fun _ => .pure rfl

theorem gives_expressionStatement (n : Nat) (p : Position) :
    Gives (expressionStatement n p) (isSimple · = true) := by
  unfold expressionStatement
  refine .bind fun first => .bind fun isAssignment => ?_
  split
  · exact .bind fun _ => .bind fun _ => .pure rfl
  · refine .bind fun ahead => ?_
    split
    · exact .bind fun _ => .bind fun _ => .bind fun _ => .pure rfl
    · refine .bind fun isAnnotation => ?_
      split
      · exact .bind fun _ => .bind fun _ => .bind fun _ => .pure rfl
      · exact .pure rfl

theorem gives_smallStatement (n : Nat) : Gives (smallStatement n) (isSimple · = true) := by
  have ending {x y : Parse Stmt} (hx : Gives x (isSimple · = true))
      (hy : Gives y (isSimple · = true)) (b : Bool) :
      Gives (if b = true then x else y) (isSimple · = true) := by
    split
    · exact hx
    · exact hy
  unfold smallStatement
  refine .bind fun p => .bind fun ahead => ?_
  split
  case h_1 | h_2 | h_3 => exact .bind fun _ => .pure rfl
  case h_4 => exact .bind fun _ => .bind (ending (.pure rfl) (.bind fun _ => .pure rfl))
  case h_5 => exact .bind fun _ => .bind fun _ => .bind fun _ => .bind fun _ => .pure rfl
  case h_6 => exact .bind fun _ => .bind (ending (.pure rfl) (.bind fun _ => .pure rfl))
  case h_7 => exact .bind fun _ => .bind fun _ => .bind fun _ => .pure rfl
  case h_8 => exact .bind fun _ => .bind fun _ => .pure rfl
  case h_9 => exact .bind fun _ => gives_importFrom n p
  case h_10 | h_11 => exact .bind fun _ => .bind fun _ => .pure rfl
  case h_12 => exact gives_expressionStatement n p

theorem gives_moreSmall (n : Nat) : Gives (moreSmall n) (∀ s ∈ ·, isSimple s = true) := by
  induction n with
  | zero => exact fun _ _ _ h => nomatch h
  | succ n ih =>
    unfold moreSmall
    refine .bind fun more => ?_
    split
    · refine .bind fun atNewline => .bind fun atEnd => ?_
      split
      · exact .pure fun _ h => absurd h List.not_mem_nil
      · refine .seq (gives_smallStatement n) fun s hs => .seq ih fun ss hss => .pure ?_
        exact List.forall_mem_cons.2 ⟨hs, hss⟩
    · exact .pure fun _ h => absurd h List.not_mem_nil

theorem gives_simpleStatements (n : Nat) :
    Gives (simpleStatements n) (∀ s ∈ ·, isSimple s = true) := by
  unfold simpleStatements
  refine .seq (gives_smallStatement n) fun s hs => .seq (gives_moreSmall n) fun ss hss => ?_
  have all : ∀ t ∈ s :: ss, isSimple t = true := List.forall_mem_cons.2 ⟨hs, hss⟩
  refine .bind fun atEnd => ?_
  dsimp only
  split
  · exact .pure all
  · exact .bind fun _ => .pure all

/-- Simple statements have no definitions in them. -/
theorem numbers_simpleStatements (n : Nat) : Numbers [] (liftM (simpleStatements n)) codesOf :=
  .lift fun c ss c' read => List.flatMap_eq_nil_iff.2 fun s hs =>
    codes_of_isSimple (gives_simpleStatements n c ss c' read s hs)

/-! ### Statements -/

/-- The parsers of statements, with their depth, number the definitions in what they read. -/
structure AllNumber (n : Nat) : Prop where
  statement : Numbers [] (statement n) codesOf
  block (place : Place) : Numbers [] (block n place) codesOf
  statements : Numbers [] (statements n) codesOf
  elseBlock : Numbers [] (elseBlock n) codesOf
  ifStatement (p : Position) : Numbers [] (ifStatement n p) fun s => (stmt s).codes
  handlers : Numbers [] (handlers n) fun hs => hs.flatMap fun h => codesOf h.body
  tryStatement (p : Position) : Numbers [] (tryStatement n p) fun s => (stmt s).codes
  definition : Numbers [] (definition n) fun s => (stmt s).codes
  functionDefinition (isAsync : Bool) (ds : List Expr) (p : Position) :
    Numbers [] (functionDefinition n isAsync ds p) fun s => (stmt s).codes
  classDefinition (ds : List Expr) (p : Position) :
    Numbers [] (classDefinition n ds p) fun s => (stmt s).codes

theorem numbers_tooDeep {α : Type} (before : List CodeId) (after : α → List CodeId) :
    Numbers before (liftM (failHere .nestingTooDeep : Parse α)) after :=
  .lift fun _ _ _ h => nomatch h

theorem numbers_none (before : List CodeId) :
    Numbers before (pure []) fun ss => before ++ codesOf ss := .pure (List.append_nil _)

theorem codesOf_append (ss ts : List Stmt) : codesOf (ss ++ ts) = codesOf ss ++ codesOf ts :=
  List.flatMap_append

theorem codesOf_singleton (s : Stmt) : codesOf [s] = (stmt s).codes := List.append_nil _

namespace AllNumber

variable {n : Nat} (ih : AllNumber n)

include ih

theorem next_block (place : Place) : Numbers [] (Parser.block (n + 1) place) codesOf := by
  unfold Parser.block
  refine .skip fun _ => .skip fun onOwnLine => ?_
  split
  · refine .skip fun _ => .bind ih.statements fun body => .skip fun _ => .pure rfl
  · exact numbers_simpleStatements n

theorem next_statements : Numbers [] (Parser.statements (n + 1)) codesOf := by
  unfold Parser.statements
  refine .skip fun atDedent => .skip fun atEnd => ?_
  split
  · exact .pure rfl
  · refine .bind ih.statement fun ss => .bind ih.statements.frame fun ts => .pure ?_
    exact codesOf_append ss ts

theorem next_elseBlock : Numbers [] (Parser.elseBlock (n + 1)) codesOf := by
  unfold Parser.elseBlock
  refine .skip fun isElse => ?_
  split
  · exact ih.block .elseWord
  · exact .pure rfl

theorem next_ifStatement (p : Position) :
    Numbers [] (Parser.ifStatement (n + 1) p) fun s => (stmt s).codes := by
  unfold Parser.ifStatement
  refine .skip fun test => .bind (ih.block .ifTest) fun body => ?_
  refine .skip fun q => .skip fun isElif => ?_
  split
  · refine .bind (ih.ifStatement q).frame fun inner => .pure ?_
    rw [codes_cond, codesOf_singleton]
  · exact .bind ih.elseBlock.frame fun orelse => .pure (codes_cond test p)

theorem next_handlers :
    Numbers [] (Parser.handlers (n + 1)) fun hs => hs.flatMap fun h => codesOf h.body := by
  unfold Parser.handlers
  refine .skip fun p => .skip fun isExcept => ?_
  split
  · refine .skip fun kind => .bind (ih.block .exceptClause) fun body => ?_
    exact .bind ih.handlers.frame fun hs => .pure rfl
  · exact .pure rfl

theorem next_tryStatement (p : Position) :
    Numbers [] (Parser.tryStatement (n + 1) p) fun s => (stmt s).codes := by
  unfold Parser.tryStatement
  refine .bind (ih.block .tryWord) fun body => .bind ih.handlers.frame fun handlers => ?_
  have ending (orelse final : List Stmt) :
      Numbers (codesOf body ++ (handlers.flatMap fun h => codesOf h.body) ++ codesOf orelse ++
          codesOf final)
        (if (handlers.isEmpty && final.isEmpty) = true then
          liftM (failHere (α := Stmt) .missingHandler)
          else pure (.tryBlock body handlers orelse final p))
        fun s => (stmt s).codes := by
    split
    · exact .lift fun _ _ _ h => nomatch h
    · exact .pure (codes_tryBlock handlers p)
  dsimp only
  split
  · refine .bind (numbers_none _) fun orelse => .skip fun isFinal => ?_
    split
    · exact .bind (ih.block .finallyWord).frame (ending orelse)
    · exact .bind (numbers_none _) (ending orelse)
  · refine .bind ih.elseBlock.frame fun orelse => .skip fun isFinal => ?_
    split
    · exact .bind (ih.block .finallyWord).frame (ending orelse)
    · exact .bind (numbers_none _) (ending orelse)

theorem next_definition :
    Numbers [] (Parser.definition (n + 1)) fun s => (stmt s).codes := by
  unfold Parser.definition
  refine .skip fun ds => .skip fun p => .skip fun ahead => ?_
  split
  · exact .skip fun _ => ih.functionDefinition false ds p
  · exact .skip fun _ => .skip fun _ => ih.functionDefinition true ds p
  · exact .skip fun _ => ih.classDefinition ds p
  · exact .lift fun _ _ _ h => nomatch h

theorem next_functionDefinition (isAsync : Bool) (ds : List Expr) (p : Position) :
    Numbers [] (Parser.functionDefinition (n + 1) isAsync ds p) fun s => (stmt s).codes := by
  unfold Parser.functionDefinition
  refine .skip fun name => .fresh fun code => .skip fun _ => .skip fun params => .skip fun _ =>
    .skip fun returns => .bind (ih.block .functionBody).frame fun body => .skip fun endLine => ?_
  exact .pure (codes_function _)

theorem next_classDefinition (ds : List Expr) (p : Position) :
    Numbers [] (Parser.classDefinition (n + 1) ds p) fun s => (stmt s).codes := by
  unfold Parser.classDefinition
  refine .skip fun name => .fresh fun code => .skip fun bases =>
    .bind (ih.block .classBody).frame fun body => .skip fun endLine => ?_
  exact .pure (codes_classDef _)

theorem next_statement : Numbers [] (Parser.statement (n + 1)) codesOf := by
  unfold Parser.statement
  have single {x : Numbering Stmt} (hx : Numbers [] x fun s => (stmt s).codes) :
      Numbers [] (x >>= fun s => pure [s]) codesOf :=
    .bind hx fun s => .pure (codesOf_singleton s)
  refine .skip fun p => .skip fun ahead => ?_
  split
  case h_1 | h_2 | h_3 | h_4 => exact single ih.definition
  case h_5 => exact .skip fun _ => single (ih.ifStatement p)
  case h_6 =>
    refine .skip fun _ => .skip fun test => .bind (ih.block .whileTest) fun body => ?_
    refine .bind ih.elseBlock.frame fun orelse => .pure ?_
    rw [codesOf_singleton, codes_whileLoop]
  case h_7 =>
    refine .skip fun _ => .skip fun target => .skip fun _ => .skip fun _ => .skip fun iter =>
      .bind (ih.block .forClause) fun body => ?_
    refine .bind ih.elseBlock.frame fun orelse => .pure ?_
    rw [codesOf_singleton, codes_forLoop]
  case h_8 => exact .skip fun _ => single (ih.tryStatement p)
  case h_9 =>
    refine .skip fun _ => .skip fun items => .bind (ih.block .withItems) fun body => .pure ?_
    rw [codesOf_singleton, codes_withBlock]
  case h_10 | h_11 => exact .lift fun _ _ _ h => nomatch h
  case h_12 => exact numbers_simpleStatements n

end AllNumber

theorem allNumber (n : Nat) : AllNumber n := by
  induction n with
  | zero =>
    constructor <;> intros <;> exact numbers_tooDeep _ _
  | succ n ih =>
    exact ⟨ih.next_statement, ih.next_block, ih.next_statements, ih.next_elseBlock,
      ih.next_ifStatement, ih.next_handlers, ih.next_tryStatement, ih.next_definition,
      ih.next_functionDefinition, ih.next_classDefinition⟩

theorem numbers_program (n : Nat) : Numbers [] (program n) codesOf := by
  induction n with
  | zero => exact numbers_tooDeep _ _
  | succ n ih =>
    unfold program
    refine .skip fun atEnd => ?_
    split
    · exact .pure rfl
    · refine .bind (allNumber n).statement fun ss => .bind ih.frame fun ts => .pure ?_
      exact codesOf_append ss ts

end Parser

/-- What has been parsed was read from its tokens as a whole. -/
theorem exists_of_parse {source : String} {script : Script} (h : parse source = .ok script) :
    ∃ tokens, tokenize source = .ok tokens ∧ ∃ depth n c,
      Parser.program depth (topCode + 1) (.ofTokens tokens) = .ok ((script.body, n), c) := by
  unfold parse at h
  split at h
  · cases h
  next tokens tokenized =>
    dsimp only at h
    cases hr : ((Parser.program (Parser.depthFor tokens.length)).run (topCode + 1)).run
        (.ofTokens tokens) with
    | error e =>
      rw [hr] at h
      cases h
    | ok r =>
      rw [hr] at h
      cases h
      exact ⟨tokens, tokenized, _, r.1.2, r.2, hr⟩

/-- The definitions of a script that has been parsed are numbered. -/
theorem isNumbered_of_parse {source : String} {script : Script} (h : parse source = .ok script) :
    script.IsNumbered := by
  obtain ⟨tokens, -, depth, n, c, read⟩ := exists_of_parse h
  obtain ⟨k, -, codes⟩ := Parser.numbers_program depth _ _ script.body n c read
  refine ⟨k, ?_⟩
  rw [Node.codes_eq]
  change (script.body.map Node.stmt).flatMap Node.codes = _
  rw [List.flatMap_map]
  exact codes

end Footprint
