import Footprint.Proofs.GrammarCompleteness
import Footprint.Proofs.Shape
import Footprint.Proofs.WrittenLines

set_option autoImplicit false

/-!
Expressions written as tokens. Each part of an expression that is no name, literal, list or tuple
stands in parentheses, so that the grammar derives the expression and nothing else from the tokens.
-/

namespace Footprint

open Token Grammar

/-! ### Tokens of operators -/

def BinaryOp.mark : BinaryOp → Symbol
  | add => .plus | sub => .minus | mul => .star | div => .slash | floorDiv => .doubleSlash
  | mod => .percent | pow => .doubleStar

def UnaryOp.mark : UnaryOp → Kind
  | neg => sym .minus | pos => sym .plus | not => word .notKw

def BoolOp.mark : BoolOp → Kind
  | and => word .andKw | or => word .orKw

def CompareOp.marks : CompareOp → List Kind
  | eq => [sym .equal] | notEq => [sym .notEqual] | lt => [sym .less] | le => [sym .lessEqual]
  | gt => [sym .greater] | ge => [sym .greaterEqual] | isIn => [word .inKw]
  | notIn => [word .notKw, word .inKw] | same => [word .isKw] | notSame => [word .isKw, word .notKw]

def Constant.token : Constant → Kind
  | none => word .noneKw
  | bool true => word .trueKw
  | bool false => word .falseKw
  | int n => .int n
  | float x => .float x
  | str s => .str s

namespace Expr

/-- The expression needs no parentheses where it is a part of another one. -/
def isSimple : Expr → Bool
  | name .. | const .. | list .. | tuple .. => true
  | _ => false

/-- The tokens of an expression where it is a part of another one. -/
def enclosed (e : Expr) (ks : List Kind) : List Kind :=
  if e.isSimple then ks else sym .openParen :: (ks ++ [sym .closeParen])

mutual

/-- The tokens of an expression. -/
def tokens : Expr → List Kind
  | name id _ => [.name id]
  | const value _ => [value.token]
  | list items _ => sym .openBracket :: (tokensOf (sym .comma) items ++ [sym .closeBracket])
  | tuple items _ =>
    sym .openParen :: (tokensOf (sym .comma) items ++
      ((if items.length = 1 then [sym .comma] else []) ++ [sym .closeParen]))
  | binary op left right _ =>
    left.enclosed left.tokens ++ sym op.mark :: right.enclosed right.tokens
  | unary op operand _ => op.mark :: operand.enclosed operand.tokens
  | logic op operands _ => tokensOf op.mark operands
  | compare left links _ => left.enclosed left.tokens ++ tokensOfLinks links
  | call callee args _ =>
    callee.enclosed callee.tokens ++
      sym .openParen :: (tokensOf (sym .comma) args ++ [sym .closeParen])
  | member object attr _ => object.enclosed object.tokens ++ [sym .dot, .name attr]
  | subscript object index _ =>
    object.enclosed object.tokens ++
      sym .openBracket :: (index.enclosed index.tokens ++ [sym .closeBracket])
  | choice test body orelse _ =>
    body.enclosed body.tokens ++ word .ifKw :: (test.enclosed test.tokens ++
      word .elseKw :: orelse.enclosed orelse.tokens)

/-- The tokens of expressions, with the given one between two of them. -/
def tokensOf (between : Kind) : List Expr → List Kind
  | [] => []
  | e :: es => e.enclosed e.tokens ++ tokensAfter between es

/-- The tokens of expressions, with the given one before each. -/
def tokensAfter (before : Kind) : List Expr → List Kind
  | [] => []
  | e :: es => before :: (e.enclosed e.tokens ++ tokensAfter before es)

def tokensOfLinks : List (CompareOp × Expr) → List Kind
  | [] => []
  | (op, e) :: links => op.marks ++ (e.enclosed e.tokens ++ tokensOfLinks links)

end

def part (e : Expr) : List Kind := e.enclosed e.tokens

end Expr

/-! ### Derivations -/

namespace Grammar.Derives

variable {ks : List Kind} {e : Expr}

theorem primary_of_atom (h : Derives ks (.atom e)) : Derives ks (.primary e) := by
  have all := Derives.primary h .noTrailers
  rwa [List.append_nil] at all

theorem term_of_factor (h : Derives ks (.factor e)) : Derives ks (.term e) := by
  have all := Derives.term h .noMoreFactors
  rwa [List.append_nil] at all

theorem arith_of_term (h : Derives ks (.term e)) : Derives ks (.arith e) := by
  have all := Derives.arith h .noMoreTerms
  rwa [List.append_nil] at all

theorem factor_of_atom (h : Derives ks (.atom e)) : Derives ks (.factor e) :=
  .factor (.power h.primary_of_atom)

theorem arith_of_primary (h : Derives ks (.primary e)) : Derives ks (.arith e) :=
  (term_of_factor (.factor (.power h))).arith_of_term

theorem notTest_of_arith (h : Derives ks (.arith e)) : Derives ks (.notTest e) :=
  .notTest (.comparison h)

theorem test_of_notTest (h : Derives ks (.notTest e)) : Derives ks (.test e) :=
  .test (.orTest (.andTest h))

theorem test_of_arith (h : Derives ks (.arith e)) : Derives ks (.test e) :=
  h.notTest_of_arith.test_of_notTest

theorem test_of_atom (h : Derives ks (.atom e)) : Derives ks (.test e) :=
  h.primary_of_atom.arith_of_primary.test_of_arith

end Grammar.Derives

namespace Expr

variable {e : Expr} {es : List Expr}

/-- The part is derived as an atom. -/
def IsAtom (e : Expr) : Prop := Derives e.part (.atom e.unplaced)

theorem derives_moreTests (h : ∀ d ∈ es, d.IsAtom) :
    Derives (tokensAfter (sym .comma) es) (.moreTests (unplacedAll es)) := by
  induction es with
  | nil => exact .noMoreTests
  | cons e es ih =>
    obtain ⟨first, others⟩ := List.forall_mem_cons.1 h
    exact .moreTests first.test_of_atom (ih others)

theorem derives_items (h : ∀ d ∈ es, d.IsAtom) :
    Derives (tokensOf (sym .comma) es) (.items (unplacedAll es)) := by
  cases es with
  | nil => exact .noItems
  | cons e es =>
    obtain ⟨first, others⟩ := List.forall_mem_cons.1 h
    exact .items first.test_of_atom (derives_moreTests others)

theorem derives_moreOr (h : ∀ d ∈ es, d.IsAtom) :
    Derives (tokensAfter (word .orKw) es) (.moreOr (unplacedAll es)) := by
  induction es with
  | nil => exact .noMoreOr
  | cons e es ih =>
    obtain ⟨first, others⟩ := List.forall_mem_cons.1 h
    exact .moreOr (.andTest first.primary_of_atom.arith_of_primary.notTest_of_arith) (ih others)

theorem derives_moreAnd (h : ∀ d ∈ es, d.IsAtom) :
    Derives (tokensAfter (word .andKw) es) (.moreAnd (unplacedAll es)) := by
  induction es with
  | nil => exact .noMoreAnd
  | cons e es ih =>
    obtain ⟨first, others⟩ := List.forall_mem_cons.1 h
    exact .moreAnd first.primary_of_atom.arith_of_primary.notTest_of_arith (ih others)

theorem compares_marks (op : CompareOp) : Compares op.marks op := by
  cases op <;> constructor

theorem derives_moreLinks {links : List (CompareOp × Expr)}
    (h : ∀ d ∈ links.map Prod.snd, d.IsAtom) :
    Derives (tokensOfLinks links) (.moreLinks (unplacedLinks links)) := by
  induction links with
  | nil => exact .noMoreLinks
  | cons link links ih =>
    obtain ⟨first, others⟩ := List.forall_mem_cons.1 h
    exact .moreLinks (compares_marks link.1) first.primary_of_atom.arith_of_primary (ih others)

theorem derives_logic {op : BoolOp} {p : Position} (two : 2 ≤ es.length)
    (h : ∀ d ∈ es, d.IsAtom) :
    Derives (logic op es p).tokens (.test (logic op es p).unplaced) := by
  obtain ⟨first, second, others, rfl⟩ : ∃ a b ds, es = a :: b :: ds := by
    match es, two with
    | a :: b :: ds, _ => exact ⟨a, b, ds, rfl⟩
  obtain ⟨atom, atoms⟩ := List.forall_mem_cons.1 h
  have notTest := atom.primary_of_atom.arith_of_primary.notTest_of_arith
  cases op with
  | or =>
    exact .test (.disjunction (.andTest notTest) (derives_moreOr atoms) (List.cons_ne_nil _ _))
  | and =>
    exact .test (.orTest (.conjunction notTest (derives_moreAnd atoms) (List.cons_ne_nil _ _)))

theorem derives_binary {op : BinaryOp} {left right : Expr} {p : Position} (hl : left.IsAtom)
    (hr : right.IsAtom) :
    Derives (binary op left right p).tokens (.test (binary op left right p).unplaced) := by
  have sum {s : Symbol} (adds : Adds s op) :
      Derives (left.part ++ sym s :: right.part)
        (.arith (.binary op left.unplaced right.unplaced .start)) := by
    have all := Derives.arith hl.factor_of_atom.term_of_factor
      (.moreTerms adds hr.factor_of_atom.term_of_factor .noMoreTerms)
    rwa [List.append_nil] at all
  have product {s : Symbol} (multiplies : Multiplies s op) :
      Derives (left.part ++ sym s :: right.part)
        (.term (.binary op left.unplaced right.unplaced .start)) := by
    have all := Derives.term hl.factor_of_atom
      (.moreFactors multiplies hr.factor_of_atom .noMoreFactors)
    rwa [List.append_nil] at all
  cases op with
  | add => exact (sum .add).test_of_arith
  | sub => exact (sum .sub).test_of_arith
  | mul => exact (product .mul).arith_of_term.test_of_arith
  | div => exact (product .div).arith_of_term.test_of_arith
  | floorDiv => exact (product .floorDiv).arith_of_term.test_of_arith
  | mod => exact (product .mod).arith_of_term.test_of_arith
  | pow =>
    have power := Derives.raised hl.primary_of_atom hr.factor_of_atom
    exact (Derives.factor power).term_of_factor.arith_of_term.test_of_arith

theorem derives_unary {op : UnaryOp} {e : Expr} {p : Position} (h : e.IsAtom) :
    Derives (unary op e p).tokens (.test (unary op e p).unplaced) := by
  have signed {s : Symbol} (signs : Signs s op) :
      Derives (sym s :: e.part) (.test (.unary op e.unplaced .start)) :=
    (Derives.sign signs h.factor_of_atom).term_of_factor.arith_of_term.test_of_arith
  cases op with
  | neg => exact signed .neg
  | pos => exact signed .pos
  | not =>
    exact (Derives.negation h.primary_of_atom.arith_of_primary.notTest_of_arith).test_of_notTest

/-- A primary is an atom with one trailer. -/
theorem derives_trailer {e : Expr} {ks : List Kind} {t : Trailer} (h : e.IsAtom)
    (trailer : Derives ks (.trailers [t])) :
    Derives (e.part ++ ks) (.primary (t.onto e.unplaced)) :=
  .primary h trailer

theorem derives_call {callee : Expr} {args : List Expr} {p : Position} (h : callee.IsAtom)
    (hargs : ∀ d ∈ args, d.IsAtom) :
    Derives (call callee args p).tokens (.primary (call callee args p).unplaced) :=
  derives_trailer h (.call (derives_items hargs) .noTrailers)

theorem derives_member {object : Expr} {attr : String} {p : Position} (h : object.IsAtom) :
    Derives (member object attr p).tokens (.primary (member object attr p).unplaced) :=
  derives_trailer h (.member attr .noTrailers)

theorem derives_subscript {object index : Expr} {p : Position} (h : object.IsAtom)
    (hindex : index.IsAtom) :
    Derives (subscript object index p).tokens (.primary (subscript object index p).unplaced) :=
  derives_trailer h (.subscript (.testList hindex.test_of_atom) .noTrailers)

theorem derives_tuple {p : Position} (h : ∀ d ∈ es, d.IsAtom) :
    Derives (tuple es p).tokens (.atom (tuple es p).unplaced) := by
  match es with
  | [] => exact .emptyTuple
  | [e] =>
    obtain ⟨first, -⟩ := List.forall_mem_cons.1 h
    have all := Derives.tuple first.test_of_atom .lastComma (List.cons_ne_nil _ _)
    have same : (tuple [e] p).tokens =
        sym .openParen :: (e.part ++ ([sym .comma] ++ [sym .closeParen])) := by
      simp [tokens, tokensOf, tokensAfter, part]
    rw [same]
    exact all
  | e :: e' :: es =>
    obtain ⟨first, others⟩ := List.forall_mem_cons.1 h
    have all := Derives.tuple first.test_of_atom (derives_moreTests others) (List.cons_ne_nil _ _)
    have same : (tuple (e :: e' :: es) p).tokens = sym .openParen ::
        (e.part ++ (tokensAfter (sym .comma) (e' :: es) ++ [sym .closeParen])) := by
      simp [tokens, tokensOf, part]
    rw [same]
    exact all

theorem derives_const {value : Constant} {p : Position} :
    Derives (const value p).tokens (.atom (const value p).unplaced) := by
  cases value with
  | none => exact .none
  | bool b =>
    cases b with
    | true => exact .true
    | false => exact .false
  | int n => exact .int n
  | float x => exact .float x
  | str s =>
    have one := Derives.strings [s] (List.cons_ne_nil _ _)
    rwa [String.join_cons, String.join_nil, String.append_empty] at one

/-- A simple expression is derived as an atom. -/
theorem derives_simple (simple : e.isSimple = true) (h : ∀ d ∈ e.parts, d.IsAtom) :
    Derives e.tokens (.atom e.unplaced) := by
  cases e with
  | name id p => exact .name id
  | const value p => exact derives_const
  | list items p => exact .list (derives_items h)
  | tuple items p => exact derives_tuple h
  | _ => cases simple

theorem derives_of_parts (shaped : (Node.expr e).Shaped) (h : ∀ d ∈ e.parts, d.IsAtom) :
    Derives e.tokens (.test e.unplaced) := by
  cases e with
  | name | const | list | tuple => exact (derives_simple rfl h).test_of_atom
  | binary op left right p =>
    exact derives_binary (h left (by simp [parts])) (h right (by simp [parts]))
  | unary op e p => exact derives_unary (h e (by simp [parts]))
  | logic op operands p => exact derives_logic shaped h
  | compare left links p =>
    obtain ⟨first, others⟩ := List.forall_mem_cons.1 h
    have some : unplacedLinks links ≠ [] := by
      cases links with
      | nil => exact absurd rfl shaped
      | cons link links => exact List.cons_ne_nil _ _
    have chain := Derives.chain first.primary_of_atom.arith_of_primary
      (derives_moreLinks others) some
    exact (Derives.notTest chain).test_of_notTest
  | call callee args p =>
    obtain ⟨first, others⟩ := List.forall_mem_cons.1 h
    exact (derives_call first others).arith_of_primary.test_of_arith
  | member object attr p =>
    exact (derives_member (h object (by simp [parts]))).arith_of_primary.test_of_arith
  | subscript object index p =>
    have primary := derives_subscript (p := p) (h object (by simp [parts]))
      (h index (by simp [parts]))
    exact primary.arith_of_primary.test_of_arith
  | choice test body orelse p =>
    have orTest {d : Expr} (hd : d.IsAtom) : Derives d.part (.orTest d.unplaced) :=
      .orTest (.andTest hd.primary_of_atom.arith_of_primary.notTest_of_arith)
    exact .choice (orTest (h body (by simp [parts]))) (orTest (h test (by simp [parts])))
      (h orelse (by simp [parts])).test_of_atom

theorem isAtom_of_parts (shaped : (Node.expr e).Shaped) (h : ∀ d ∈ e.parts, d.IsAtom) :
    e.IsAtom := by
  unfold IsAtom part enclosed
  split
  · next simple => exact derives_simple simple h
  · exact .parenthesis (derives_of_parts shaped h)

theorem writable_parts (h : (Node.expr e).Writable) : ∀ d ∈ e.parts, (Node.expr d).Writable :=
  fun d hd => h.child (List.mem_map.2 ⟨d, hd, rfl⟩)

/-- What holds of an expression if it holds of its parts holds of all that can be written. -/
theorem induct_parts {motive : Expr → Prop}
    (step : ∀ e, (Node.expr e).Writable → (∀ d ∈ e.parts, motive d) → motive e)
    (h : (Node.expr e).Writable) : motive e := by
  induction hn : Node.expr e using Node.below generalizing e with
  | node n ih =>
    subst hn
    refine step e h fun d hd => ?_
    exact ih (.expr d) (List.mem_map.2 ⟨d, hd, rfl⟩) (writable_parts h d hd) rfl

theorem isAtom (h : (Node.expr e).Writable) : e.IsAtom :=
  induct_parts (fun _ h parts => isAtom_of_parts h.here.1 parts) h

/-- The tokens of an expression are derived as a test. -/
theorem derives_tokens (h : (Node.expr e).Writable) : Derives e.tokens (.test e.unplaced) :=
  derives_of_parts h.here.1 fun d hd => isAtom (writable_parts h d hd)

/-- A target is derived without operators. -/
theorem derives_target (h : (Node.expr e).Writable) (target : e.isAssignable = true) :
    Derives e.tokens (.primary e.unplaced) := by
  have atoms : ∀ d ∈ e.parts, d.IsAtom := fun d hd => isAtom (writable_parts h d hd)
  cases e with
  | name | list | tuple => exact (derives_simple rfl atoms).primary_of_atom
  | member object attr p => exact derives_member (atoms object (by simp [parts]))
  | subscript object index p =>
    exact derives_subscript (atoms object (by simp [parts])) (atoms index (by simp [parts]))
  | _ => cases target

theorem tokens_ne_nil (h : (Node.expr e).Writable) : e.tokens ≠ [] := by
  rcases (derives_tokens h).opens with none | ⟨k, ks, eq, -⟩
  · cases none
  · rw [eq]
    exact List.cons_ne_nil k ks

/-! ### Brackets and spellings -/

theorem balanced_enclosed {ks : List Kind} (h : Balanced ks) : Balanced (e.enclosed ks) := by
  unfold enclosed
  split
  · exact h
  · exact .parens h .nil

section

variable {k : Kind}

theorem balanced_tokensAfter (before : ∀ {ks}, Balanced ks → Balanced (k :: ks))
    (h : ∀ d ∈ es, Balanced d.part) : Balanced (tokensAfter k es) := by
  induction es with
  | nil => exact .nil
  | cons e es ih =>
    obtain ⟨first, others⟩ := List.forall_mem_cons.1 h
    exact before (first.append (ih others))

theorem balanced_tokensOf (between : ∀ {ks}, Balanced ks → Balanced (k :: ks))
    (h : ∀ d ∈ es, Balanced d.part) : Balanced (tokensOf k es) := by
  cases es with
  | nil => exact .nil
  | cons e es =>
    obtain ⟨first, others⟩ := List.forall_mem_cons.1 h
    exact first.append (balanced_tokensAfter between others)

end

theorem balanced_marks (op : CompareOp) {ks : List Kind} (h : Balanced ks) :
    Balanced (op.marks ++ ks) := by
  refine Balanced.append ?_ h
  cases op <;> exact ⟨by decide, fun _ => rfl⟩

theorem balanced_tokensOfLinks {links : List (CompareOp × Expr)}
    (h : ∀ d ∈ links.map Prod.snd, Balanced d.part) : Balanced (tokensOfLinks links) := by
  induction links with
  | nil => exact .nil
  | cons link links ih =>
    obtain ⟨first, others⟩ := List.forall_mem_cons.1 h
    exact balanced_marks link.1 (first.append (ih others))

theorem balanced_of_parts (h : (Node.expr e).Writable) (parts : ∀ d ∈ e.parts, Balanced d.part) :
    Balanced e.tokens := by
  have comma {ks : List Kind} (h : Balanced ks) : Balanced (sym .comma :: ks) :=
    h.cons rfl fun _ => rfl
  cases e with
  | name id p => exact .name h.here.1 .nil
  | const value p =>
    cases value with
    | int n => exact Balanced.nil.cons (decide_eq_true h.here.1) fun _ => rfl
    | float x => cases h.here.2
    | bool b => cases b <;> exact .keyword _ .nil
    | none => exact .keyword _ .nil
    | str s => exact Balanced.nil.cons rfl fun _ => rfl
  | list items p => exact .brackets (balanced_tokensOf comma parts) .nil
  | tuple items p =>
    rw [tokens, ← List.append_assoc]
    refine .parens ((balanced_tokensOf comma parts).append ?_) .nil
    split
    · exact comma .nil
    · exact .nil
  | binary op left right p =>
    obtain ⟨first, second⟩ := List.forall_mem_cons.1 parts
    refine first.append (Balanced.cons ?_ ?_ (second right List.mem_cons_self)) <;>
      cases op <;> first | rfl | exact fun _ => rfl
  | unary op e p =>
    refine Balanced.cons ?_ ?_ (parts e List.mem_cons_self) <;>
      cases op <;> first | rfl | exact fun _ => rfl
  | logic op operands p =>
    cases op with
    | and => exact balanced_tokensOf (.keyword .andKw) parts
    | or => exact balanced_tokensOf (.keyword .orKw) parts
  | compare left links p =>
    obtain ⟨first, others⟩ := List.forall_mem_cons.1 parts
    exact first.append (balanced_tokensOfLinks others)
  | call callee args p =>
    obtain ⟨first, others⟩ := List.forall_mem_cons.1 parts
    exact first.append (.parens (balanced_tokensOf comma others) .nil)
  | member object attr p =>
    have named : Balanced [sym .dot, .name attr] :=
      (Balanced.name h.here.1 .nil).cons rfl fun _ => rfl
    exact (parts object List.mem_cons_self).append named
  | subscript object index p =>
    obtain ⟨first, second⟩ := List.forall_mem_cons.1 parts
    exact first.append (.brackets (second index List.mem_cons_self) .nil)
  | choice test body orelse p =>
    simp only [Expr.parts, List.forall_mem_cons] at parts
    obtain ⟨condition, first, last, -⟩ := parts
    exact first.append (.keyword .ifKw (condition.append (.keyword .elseKw last)))

theorem balanced_tokens (h : (Node.expr e).Writable) : Balanced e.tokens :=
  induct_parts (motive := fun e => Balanced e.tokens)
    (fun _ h parts => balanced_of_parts h fun d hd => balanced_enclosed (parts d hd)) h

end Expr

end Footprint
