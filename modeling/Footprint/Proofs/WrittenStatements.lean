import Footprint.Proofs.DefinitionNumbers
import Footprint.Proofs.WrittenExpressions

set_option autoImplicit false

/-!
Statements written as lines: one line for each statement and for each header of a block, the block
below its header.
-/

namespace Footprint

open Token Grammar

/-! ### Trees without places -/

namespace Param

/-- The parameter with every position forgotten. -/
def unplaced (p : Param) : Param :=
  ⟨p.name, p.annotation.map Expr.unplaced, p.default.map Expr.unplaced, .start⟩

end Param

namespace FunctionHead

/-- The header without what the parser adds to the text: places, the number and the names bound. -/
def unplaced (h : FunctionHead) : FunctionHead where
  name := h.name
  isAsync := h.isAsync
  params := h.params.map Param.unplaced
  decorators := Expr.unplacedAll h.decorators
  returns := h.returns.map Expr.unplaced
  code := topCode
  bound := ⟨[], [], []⟩
  pos := .start
  endLine := 0

end FunctionHead

namespace ClassHead

def unplaced (h : ClassHead) : ClassHead where
  name := h.name
  bases := Expr.unplacedAll h.bases
  decorators := Expr.unplacedAll h.decorators
  code := topCode
  pos := .start
  endLine := 0

end ClassHead

def WithItem.unplaced (i : WithItem) : WithItem := ⟨i.context.unplaced, i.target.map Expr.unplaced⟩

def Import.unplaced (a : Import) : Import := ⟨a.name, a.asName, .start⟩

namespace Stmt

mutual

/-- The statement without what the parser adds to the text. -/
@[simp] def unplaced : Stmt → Stmt
  | function h body => function h.unplaced (unplacedAll body)
  | classDef h body => classDef h.unplaced (unplacedAll body)
  | ret value _ => ret (value.map Expr.unplaced) .start
  | delete targets _ => delete (Expr.unplacedAll targets) .start
  | assign targets value _ => assign (Expr.unplacedAll targets) value.unplaced .start
  | augment target op value _ => augment target.unplaced op value.unplaced .start
  | annotate target annotation value _ =>
    annotate target.unplaced annotation.unplaced (value.map Expr.unplaced) .start
  | forLoop target iter body orelse _ =>
    forLoop target.unplaced iter.unplaced (unplacedAll body) (unplacedAll orelse) .start
  | whileLoop test body orelse _ =>
    whileLoop test.unplaced (unplacedAll body) (unplacedAll orelse) .start
  | cond test body orelse _ => cond test.unplaced (unplacedAll body) (unplacedAll orelse) .start
  | withBlock items body _ => withBlock (items.map WithItem.unplaced) (unplacedAll body) .start
  | tryBlock body handlers orelse final _ =>
    tryBlock (unplacedAll body) (unplacedHandlers handlers) (unplacedAll orelse)
      (unplacedAll final) .start
  | raise exc _ => raise (exc.map Expr.unplaced) .start
  | assert test message _ => assert test.unplaced (message.map Expr.unplaced) .start
  | importNames names _ => importNames (names.map Import.unplaced) .start
  | importFrom source names _ => importFrom source (names.map Import.unplaced) .start
  | globalDecl names _ => globalDecl names .start
  | nonlocalDecl names _ => nonlocalDecl names .start
  | expr value _ => expr value.unplaced .start
  | pass _ => pass .start
  | brk _ => brk .start
  | cont _ => cont .start

@[simp] def unplacedAll : List Stmt → List Stmt
  | [] => []
  | s :: ss => s.unplaced :: unplacedAll ss

@[simp] def unplacedHandlers : List Handler → List Handler
  | [] => []
  | .clause kind name body _ :: hs =>
    .clause (kind.map Expr.unplaced) name (unplacedAll body) .start :: unplacedHandlers hs

end

end Stmt

def Script.unplaced (s : Script) : Script := ⟨Stmt.unplacedAll s.body⟩

/-! ### Lines -/

/-- The tokens of the members of a list, with commas between them. -/
def listed : List (List Kind) → List Kind
  | [] => []
  | ks :: others => ks ++ others.flatMap (sym .comma :: ·)

/-- The tokens of what may be missing, with the given one before them. -/
def optional (before : Kind) : Option (List Kind) → List Kind
  | none => []
  | some ks => before :: ks

/-- The tokens of a dotted name. -/
def dotted (s : String) : List Kind :=
  match components s with
  | [] => []
  | c :: cs => .name c :: cs.flatMap fun c => [sym .dot, .name c]

/-- The tokens of what names are imported from. -/
def source (s : String) : List Kind :=
  (sourceDots s).map (fun _ => sym .dot) ++ if sourceName s = "" then [] else dotted (sourceName s)

def BinaryOp.assignMark : BinaryOp → Symbol
  | add => .plusAssign | sub => .minusAssign | mul => .starAssign | div => .slashAssign
  | floorDiv => .doubleSlashAssign | mod => .percentAssign | pow => .doubleStarAssign

namespace Param

def tokens (p : Param) : List Kind :=
  .name p.name :: (optional (sym .colon) (p.annotation.map Expr.tokens) ++
    optional (sym .assign) (p.default.map Expr.tokens))

end Param

namespace WithItem

def tokens (i : WithItem) : List Kind :=
  i.context.tokens ++ optional (word .asKw) (i.target.map Expr.tokens)

end WithItem

namespace Import

def tokens (name : List Kind) (a : Import) : List Kind :=
  name ++ optional (word .asKw) (a.asName.map fun s => [.name s])

/-- The tokens of a name that is imported from somewhere. -/
def memberTokens (a : Import) : List Kind :=
  if a.isStar then [sym .star] else a.tokens [.name a.name]

end Import

namespace FunctionHead

/-- The tokens of the line with the name and the parameters. -/
def tokens (h : FunctionHead) : List Kind :=
  (if h.isAsync then [word .asyncKw] else []) ++ word .defKw :: .name h.name :: sym .openParen ::
    (listed (h.params.map Param.tokens) ++ sym .closeParen ::
      (optional (sym .arrow) (h.returns.map Expr.tokens) ++ [sym .colon]))

end FunctionHead

namespace ClassHead

def tokens (h : ClassHead) : List Kind :=
  word .classKw :: .name h.name ::
    ((if h.bases.isEmpty then []
      else sym .openParen :: (Expr.tokensOf (sym .comma) h.bases ++ [sym .closeParen])) ++
      [sym .colon])

end ClassHead

/-- The tokens of what an except clause catches. -/
def caughtTokens (kind : Option Expr) (name : Option String) : List Kind :=
  match kind with
  | none => []
  | some e => e.tokens ++ optional (word .asKw) (name.map fun s => [.name s])

namespace Stmt

/-- The tokens of a statement without blocks. -/
def tokens : Stmt → List Kind
  | ret value _ => word .returnKw :: (value.map Expr.tokens).getD []
  | delete targets _ => word .delKw :: listed (targets.map Expr.tokens)
  | assign targets value _ => targets.flatMap (fun e => e.tokens ++ [sym .assign]) ++ value.tokens
  | augment target op value _ => target.tokens ++ sym op.assignMark :: value.tokens
  | annotate target kind value _ =>
    target.tokens ++ sym .colon ::
      (kind.tokens ++ optional (sym .assign) (value.map Expr.tokens))
  | raise exc _ => word .raiseKw :: (exc.map Expr.tokens).getD []
  | assert test message _ =>
    word .assertKw :: (test.tokens ++ optional (sym .comma) (message.map Expr.tokens))
  | importNames names _ => word .importKw :: listed (names.map fun a => a.tokens (dotted a.name))
  | importFrom origin names _ =>
    word .fromKw :: (source origin ++ word .importKw :: listed (names.map Import.memberTokens))
  | globalDecl names _ => word .globalKw :: listed (names.map fun s => [.name s])
  | nonlocalDecl names _ => word .nonlocalKw :: listed (names.map fun s => [.name s])
  | expr value _ => value.tokens
  | brk _ => [word .breakKw]
  | cont _ => [word .continueKw]
  | _ => [word .passKw]

end Stmt

open Outline

/-- The lines of a block that may be missing. -/
def optionalBlock (w : Keyword) (below : List Outline) : List Outline :=
  if below.isEmpty then [] else [.entry [word w, sym .colon] below]

/-- The lines with decorators in front of a definition. -/
def decoratorLines (ds : List Expr) : List Outline :=
  ds.map fun e => .entry (sym .atSign :: e.tokens) []

namespace Stmt

mutual

/-- The lines of a statement. -/
@[simp] def outline : Stmt → List Outline
  | function h body => decoratorLines h.decorators ++ [.entry h.tokens (outlineOf body)]
  | classDef h body => decoratorLines h.decorators ++ [.entry h.tokens (outlineOf body)]
  | forLoop target iter body orelse _ =>
    .entry (word .forKw :: (target.tokens ++ word .inKw :: (iter.tokens ++ [sym .colon])))
      (outlineOf body) :: optionalBlock .elseKw (outlineOf orelse)
  | whileLoop test body orelse _ =>
    .entry (word .whileKw :: (test.tokens ++ [sym .colon])) (outlineOf body) ::
      optionalBlock .elseKw (outlineOf orelse)
  | cond test body orelse _ =>
    .entry (word .ifKw :: (test.tokens ++ [sym .colon])) (outlineOf body) ::
      optionalBlock .elseKw (outlineOf orelse)
  | withBlock items body _ =>
    [.entry (word .withKw :: (listed (items.map WithItem.tokens) ++ [sym .colon]))
      (outlineOf body)]
  | tryBlock body handlers orelse final _ =>
    .entry [word .tryKw, sym .colon] (outlineOf body) ::
      (outlineOfHandlers handlers ++ (optionalBlock .elseKw (outlineOf orelse) ++
        optionalBlock .finallyKw (outlineOf final)))
  | s => [.entry s.tokens []]

@[simp] def outlineOf : List Stmt → List Outline
  | [] => []
  | s :: ss => s.outline ++ outlineOf ss

@[simp] def outlineOfHandlers : List Handler → List Outline
  | [] => []
  | .clause kind name body _ :: hs =>
    .entry (word .exceptKw :: (caughtTokens kind name ++ [sym .colon])) (outlineOf body) ::
      outlineOfHandlers hs

end

end Stmt

/-- The script as text: a line for each statement and each header of a block, four blanks in front
of a line for each block around it, parentheses around the compound parts of expressions. -/
def Script.text (s : Script) : String := textOf (Stmt.outlineOf s.body)

/-! ### Lines that can be written -/

section

variable {ks ks' : List Kind} {k : Kind} {e : Expr} {es : List Expr}

theorem balanced_colon (h : Balanced ks) : Balanced (ks ++ [sym .colon]) :=
  h.append (Balanced.nil.cons rfl fun _ => rfl)

theorem balanced_listed {l : List (List Kind)} (h : ∀ ks ∈ l, Balanced ks) :
    Balanced (listed l) := by
  cases l with
  | nil => exact .nil
  | cons ks others =>
    obtain ⟨first, later⟩ := List.forall_mem_cons.1 h
    clear h
    refine first.append ?_
    induction others with
    | nil => exact .nil
    | cons ks' others ih =>
      obtain ⟨second, later⟩ := List.forall_mem_cons.1 later
      exact (second.append (ih later)).cons rfl fun _ => rfl

theorem balanced_optional {o : Option (List Kind)}
    (before : ∀ {ks}, Balanced ks → Balanced (k :: ks))
    (h : ∀ ks, o = some ks → Balanced ks) : Balanced (optional k o) := by
  cases o with
  | none => exact .nil
  | some ks => exact before (h ks rfl)

theorem balanced_optional_expr {o : Option Expr} (before : ∀ {ks}, Balanced ks → Balanced (k :: ks))
    (h : ∀ e, o = some e → (Node.expr e).Writable) : Balanced (optional k (o.map Expr.tokens)) := by
  refine balanced_optional before fun ks hks => ?_
  obtain ⟨e, he, rfl⟩ := Option.map_eq_some_iff.1 hks
  exact Expr.balanced_tokens (h e he)

theorem balanced_alias {o : Option String} (h : ∀ s ∈ o, isIdentifier s = true) :
    Balanced (optional (word .asKw) (o.map fun s => [.name s])) := by
  refine balanced_optional (.keyword .asKw) fun ks hks => ?_
  obtain ⟨s, hs, rfl⟩ := Option.map_eq_some_iff.1 hks
  exact .name (h s hs) .nil

theorem balanced_names {names : List String} (h : ∀ s ∈ names, isIdentifier s = true) :
    Balanced (listed (names.map fun s => [.name s])) := by
  refine balanced_listed fun ks hks => ?_
  obtain ⟨s, hs, rfl⟩ := List.mem_map.1 hks
  exact .name (h s hs) .nil

theorem balanced_dotted {s : String} (h : isDotted s = true) : Balanced (dotted s) := by
  unfold isDotted at h
  unfold dotted
  split
  · exact .nil
  · next c cs parts =>
    rw [parts, List.all_cons, Bool.and_eq_true] at h
    refine .name h.1 ?_
    have others := h.2
    clear parts h
    induction cs with
    | nil => exact .nil
    | cons d cs ih =>
      rw [List.all_cons, Bool.and_eq_true] at others
      exact (Balanced.name others.1 (ih others.2)).cons rfl fun _ => rfl

theorem balanced_source {s : String} (h : isSource s = true) : Balanced (source s) := by
  refine Balanced.append ?_ ?_
  · induction sourceDots s with
    | nil => exact .nil
    | cons c dots ih => exact ih.cons rfl fun _ => rfl
  · split
    · exact .nil
    · next named =>
      rw [isSource, Bool.or_eq_true, decide_eq_true_iff] at h
      exact balanced_dotted (h.resolve_left named)

theorem balanced_param {p : Param} (h : (Node.param p).Writable) : Balanced p.tokens := by
  have named : isIdentifier p.name = true := h.here.1
  refine .name named (.append ?_ ?_)
  · refine balanced_optional_expr (fun h => h.cons rfl fun _ => rfl) fun e he => ?_
    exact h.child (by simp [Node.children, he])
  · refine balanced_optional_expr (fun h => h.cons rfl fun _ => rfl) fun e he => ?_
    exact h.child (by simp [Node.children, he])

theorem balanced_withItem {i : WithItem} (h : (Node.withItem i).Writable) : Balanced i.tokens := by
  refine (Expr.balanced_tokens (h.child (by simp [Node.children]))).append ?_
  refine balanced_optional_expr (.keyword .asKw) fun e he => ?_
  exact h.child (by simp [Node.children, he])

theorem balanced_import {a : Import} (h : (Node.imported a).Writable) (hks : Balanced ks) :
    Balanced (a.tokens ks) := hks.append (balanced_alias h.here.1)

theorem balanced_function {h : FunctionHead} {body : List Stmt}
    (w : (Node.stmt (.function h body)).Writable) : Balanced h.tokens := by
  have shaped := w.here.1
  have params : Balanced (listed (h.params.map Param.tokens)) := by
    refine balanced_listed fun ks hks => ?_
    obtain ⟨p, hp, rfl⟩ := List.mem_map.1 hks
    exact balanced_param (w.child (by simp [Node.children, Stmt.parts, hp]))
  have returns : Balanced (optional (sym .arrow) (h.returns.map Expr.tokens)) :=
    balanced_optional_expr (fun h => h.cons rfl fun _ => rfl) fun e he =>
      w.child (by simp [Node.children, Stmt.parts, he])
  refine Balanced.append ?_ ?_
  · split
    · exact .keyword _ .nil
    · exact .nil
  · exact .keyword .defKw (.name shaped.1 (.parens params (balanced_colon returns)))

theorem balanced_class {h : ClassHead} {body : List Stmt}
    (w : (Node.stmt (.classDef h body)).Writable) : Balanced h.tokens := by
  refine .keyword .classKw (.name w.here.1.1 (balanced_colon ?_))
  split
  · exact .nil
  · refine .parens (Expr.balanced_tokensOf (fun h => h.cons rfl fun _ => rfl) fun d hd => ?_) .nil
    exact Expr.balanced_enclosed
      (Expr.balanced_tokens (w.child (by simp [Node.children, Stmt.parts, hd])))

theorem balanced_caught {kind : Option Expr} {name : Option String}
    (hkind : ∀ e, kind = some e → (Node.expr e).Writable)
    (hname : ∀ s ∈ name, isIdentifier s = true) :
    Balanced (caughtTokens kind name) := by
  cases kind with
  | none => exact .nil
  | some e => exact (Expr.balanced_tokens (hkind e rfl)).append (balanced_alias hname)

/-- Lines one below another are written if their tokens can be. -/
theorem eachOf_append {P : List Kind → Prop} {os os' : List Outline} (h : EachOf P os)
    (h' : EachOf P os') : EachOf P (os ++ os') := by
  induction os with
  | nil => exact h'
  | cons o os ih => exact ⟨h.1, ih h.2⟩

theorem fits_optionalBlock {w : Keyword} {below : List Outline} (h : EachOf Fits below) :
    EachOf Fits (optionalBlock w below) := by
  unfold optionalBlock
  split
  · trivial
  · exact ⟨⟨⟨List.cons_ne_nil _ _, .keyword w (balanced_colon .nil)⟩, h⟩, trivial⟩

theorem fits_decoratorLines (h : ∀ e ∈ es, (Node.expr e).Writable) :
    EachOf Fits (decoratorLines es) := by
  induction es with
  | nil => trivial
  | cons e es ih =>
    obtain ⟨first, others⟩ := List.forall_mem_cons.1 h
    have balanced : Balanced (sym .atSign :: e.tokens) :=
      (Expr.balanced_tokens first).cons rfl fun _ => rfl
    exact ⟨⟨⟨List.cons_ne_nil _ _, balanced⟩, trivial⟩, ih others⟩

namespace Stmt

theorem outline_simple {s : Stmt} (h : Node.isSimple s = true) :
    s.outline = [.entry s.tokens []] := by
  cases s <;> first | rfl | cases h

theorem balanced_getD {o : Option Expr} (h : ∀ e, o = some e → (Node.expr e).Writable) :
    Balanced ((o.map Expr.tokens).getD []) := by
  cases o with
  | none => exact .nil
  | some e => exact Expr.balanced_tokens (h e rfl)

theorem balanced_targets (h : ∀ e ∈ es, (Node.expr e).Writable) :
    Balanced (es.flatMap fun e => e.tokens ++ [sym .assign]) := by
  induction es with
  | nil => exact .nil
  | cons e es ih =>
    obtain ⟨first, others⟩ := List.forall_mem_cons.1 h
    have sign : Balanced [sym .assign] := Balanced.nil.cons rfl fun _ => rfl
    exact ((Expr.balanced_tokens first).append sign).append (ih others)

theorem balanced_tokens {s : Stmt} (simple : Node.isSimple s = true) (h : (Node.stmt s).Writable) :
    Balanced s.tokens := by
  have part {e : Expr} (he : Node.expr e ∈ s.parts) : Balanced e.tokens :=
    Expr.balanced_tokens (h.child he)
  have sign {ks : List Kind} (hks : Balanced ks) {s : Symbol}
      (level : ∀ depth, Token.depthAfter? depth s = some depth) : Balanced (sym s :: ks) :=
    hks.cons rfl level
  cases s with
  | function | classDef | forLoop | whileLoop | cond | withBlock | tryBlock => cases simple
  | ret value p | raise value p =>
    refine .keyword _ (balanced_getD fun e he => h.child ?_)
    simp [Node.children, parts, he]
  | delete targets p =>
    refine .keyword _ (balanced_listed fun ks hks => ?_)
    obtain ⟨e, he, rfl⟩ := List.mem_map.1 hks
    exact part (by simp [parts, he])
  | assign targets value p =>
    refine (balanced_targets fun e he => h.child ?_).append (part (by simp [parts]))
    simp [Node.children, parts, he]
  | augment target op value p =>
    refine (part (by simp [parts])).append (sign (part (by simp [parts])) fun _ => ?_)
    cases op <;> rfl
  | annotate target annotation value p =>
    refine (part (by simp [parts])).append (sign (.append (part (by simp [parts])) ?_) fun _ => rfl)
    refine balanced_optional_expr (fun h => h.cons rfl fun _ => rfl) fun e he => h.child ?_
    simp [Node.children, parts, he]
  | assert test message p =>
    refine .keyword _ ((part (by simp [parts])).append ?_)
    refine balanced_optional_expr (fun h => h.cons rfl fun _ => rfl) fun e he => h.child ?_
    simp [Node.children, parts, he]
  | importNames names p =>
    refine .keyword _ (balanced_listed fun ks hks => ?_)
    obtain ⟨a, ha, rfl⟩ := List.mem_map.1 hks
    refine balanced_import (h.child (by simp [Node.children, parts, ha])) ?_
    exact balanced_dotted (h.here.1.2 a ha)
  | importFrom origin names p =>
    refine .keyword _ ((balanced_source h.here.1.1).append (.keyword _ (balanced_listed ?_)))
    intro ks hks
    obtain ⟨a, ha, rfl⟩ := List.mem_map.1 hks
    unfold Import.memberTokens
    split
    · exact sign .nil fun _ => rfl
    · next unstarred =>
      refine balanced_import (h.child (by simp [Node.children, parts, ha])) ?_
      rcases h.here.1.2 with ⟨b, rfl, star⟩ | ⟨-, named⟩
      · obtain rfl := List.mem_singleton.1 ha
        exact absurd star unstarred
      · exact .name (named a ha) .nil
  | globalDecl names p | nonlocalDecl names p => exact .keyword _ (balanced_names h.here.1.2)
  | expr value p => exact part (by simp [parts])
  | pass p | brk p | cont p => exact .keyword _ .nil

theorem tokens_ne_nil {s : Stmt} (h : (Node.stmt s).Writable) : s.tokens ≠ [] := by
  cases s with
  | assign targets value p =>
    have value : value.tokens ≠ [] := Expr.tokens_ne_nil (h.child (by simp [Node.children, parts]))
    simp [tokens, value]
  | expr value p => exact Expr.tokens_ne_nil (h.child (by simp [Node.children, parts]))
  | augment | annotate => simp [tokens]
  | _ => exact List.cons_ne_nil _ _

mutual

/-- The lines of a statement can be written. -/
theorem fits_outline (s : Stmt) (h : (Node.stmt s).Writable) : EachOf Fits s.outline := by
  have header {ks : List Kind} {w : Keyword} (hks : Balanced ks) :
      Fits (word w :: (ks ++ [sym .colon])) :=
    ⟨List.cons_ne_nil _ _, .keyword w (balanced_colon hks)⟩
  have written {e : Expr} (he : Node.expr e ∈ s.parts) : Balanced e.tokens :=
    Expr.balanced_tokens (h.child he)
  cases s with
  | function head body =>
    have block := fits_outlineOf body fun s hs => h.child (by simp [Node.children, parts, hs])
    refine eachOf_append (fits_decoratorLines fun e he => h.child ?_)
      ⟨⟨⟨by simp [FunctionHead.tokens], balanced_function h⟩, block⟩, trivial⟩
    simp [Node.children, parts, he]
  | classDef head body =>
    have block := fits_outlineOf body fun s hs => h.child (by simp [Node.children, parts, hs])
    refine eachOf_append (fits_decoratorLines fun e he => h.child ?_)
      ⟨⟨⟨by simp [ClassHead.tokens], balanced_class h⟩, block⟩, trivial⟩
    simp [Node.children, parts, he]
  | forLoop target iter body orelse p =>
    have block := fits_outlineOf body fun s hs => h.child (by simp [Node.children, parts, hs])
    have other := fits_outlineOf orelse fun s hs => h.child (by simp [Node.children, parts, hs])
    have clause : Balanced (target.tokens ++ word .inKw :: iter.tokens) :=
      (written (by simp [parts])).append (.keyword .inKw (written (by simp [parts])))
    have line := header (w := .forKw) clause
    rw [List.append_assoc] at line
    exact ⟨⟨line, block⟩, fits_optionalBlock other⟩
  | whileLoop test body orelse p | cond test body orelse p =>
    have block := fits_outlineOf body fun s hs => h.child (by simp [Node.children, parts, hs])
    have other := fits_outlineOf orelse fun s hs => h.child (by simp [Node.children, parts, hs])
    exact ⟨⟨header (written (by simp [parts])), block⟩, fits_optionalBlock other⟩
  | withBlock items body p =>
    have block := fits_outlineOf body fun s hs => h.child (by simp [Node.children, parts, hs])
    refine ⟨⟨header (balanced_listed fun ks hks => ?_), block⟩, trivial⟩
    obtain ⟨i, hi, rfl⟩ := List.mem_map.1 hks
    exact balanced_withItem (h.child (by simp [Node.children, parts, hi]))
  | tryBlock body handlers orelse final p =>
    have block := fits_outlineOf body fun s hs => h.child (by simp [Node.children, parts, hs])
    have clauses := fits_outlineOfHandlers handlers fun c hc =>
      h.child (by simp [Node.children, parts, hc])
    have other := fits_outlineOf orelse fun s hs => h.child (by simp [Node.children, parts, hs])
    have last := fits_outlineOf final fun s hs => h.child (by simp [Node.children, parts, hs])
    exact ⟨⟨header .nil, block⟩, eachOf_append clauses
      (eachOf_append (fits_optionalBlock other) (fits_optionalBlock last))⟩
  | _ => exact ⟨⟨⟨tokens_ne_nil h, balanced_tokens rfl h⟩, trivial⟩, trivial⟩

theorem fits_outlineOf : (ss : List Stmt) → (∀ s ∈ ss, (Node.stmt s).Writable) →
    EachOf Fits (outlineOf ss)
  | [], _ => trivial
  | s :: ss, h => by
    obtain ⟨first, others⟩ := List.forall_mem_cons.1 h
    exact eachOf_append (fits_outline s first) (fits_outlineOf ss others)

theorem fits_outlineOfHandlers : (hs : List Handler) → (∀ h ∈ hs, (Node.handler h).Writable) →
    EachOf Fits (outlineOfHandlers hs)
  | [], _ => trivial
  | .clause kind name body p :: hs, h => by
    obtain ⟨first, others⟩ := List.forall_mem_cons.1 h
    have header : Balanced (caughtTokens kind name) :=
      balanced_caught (fun e he => first.child (by simp [Node.children, Handler.kind, he]))
        fun s hs => (first.here.1.1 s hs).1
    have block := fits_outlineOf body fun s hs =>
      first.child (by simp [Node.children, Handler.body, hs])
    exact ⟨⟨⟨List.cons_ne_nil _ _, .keyword .exceptKw (balanced_colon header)⟩, block⟩,
      fits_outlineOfHandlers hs others⟩

end

end Stmt

end

end Footprint
