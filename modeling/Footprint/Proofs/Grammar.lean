import Footprint.Parser.Expr

set_option autoImplicit false

/-!
The grammar of expressions, as a relation between sequences of tokens and trees without positions:

    testList   ::= test ("," test)* [","]
    test       ::= orTest ["if" orTest "else" test]
    orTest     ::= andTest ("or" andTest)*
    andTest    ::= notTest ("and" notTest)*
    notTest    ::= "not" notTest | comparison
    comparison ::= arith (compareOp arith)*
    arith      ::= term (("+" | "-") term)*
    term       ::= factor (("*" | "/" | "//" | "%") factor)*
    factor     ::= ("+" | "-") factor | power
    power      ::= primary ["**" factor]
    primary    ::= atom trailer*
    trailer    ::= "(" items ")" | "[" testList "]" | "." name
    atom       ::= name | literal | string+ | "(" ")" | "(" test ")"
                 | "(" test ("," test)+ [","] ")" | "(" test "," ")" | "[" items "]"
    items      ::= [test ("," test)* [","]]
-/

namespace Footprint

open Token

/-! ### Trees without positions -/

namespace Expr

mutual

/-- The tree with every position forgotten. -/
@[simp]
def unplaced : Expr → Expr
  | name id _ => name id .start
  | const value _ => const value .start
  | list items _ => list (unplacedAll items) .start
  | tuple items _ => tuple (unplacedAll items) .start
  | binary op left right _ => binary op left.unplaced right.unplaced .start
  | unary op operand _ => unary op operand.unplaced .start
  | logic op operands _ => logic op (unplacedAll operands) .start
  | compare left links _ => compare left.unplaced (unplacedLinks links) .start
  | call callee args _ => call callee.unplaced (unplacedAll args) .start
  | member object attr _ => member object.unplaced attr .start
  | subscript object index _ => subscript object.unplaced index.unplaced .start
  | choice test body orelse _ => choice test.unplaced body.unplaced orelse.unplaced .start

@[simp]
def unplacedAll : List Expr → List Expr
  | [] => []
  | e :: es => e.unplaced :: unplacedAll es

@[simp]
def unplacedLinks : List (CompareOp × Expr) → List (CompareOp × Expr)
  | [] => []
  | (op, e) :: links => (op, e.unplaced) :: unplacedLinks links

end

end Expr

namespace Grammar

abbrev word (k : Keyword) : Kind := .mark (.keyword k)

abbrev sym (s : Symbol) : Kind := .mark (.symbol s)

/-! ### Operators -/

inductive Adds : Symbol → BinaryOp → Prop
  | add : Adds .plus .add
  | sub : Adds .minus .sub

inductive Multiplies : Symbol → BinaryOp → Prop
  | mul : Multiplies .star .mul
  | div : Multiplies .slash .div
  | floorDiv : Multiplies .doubleSlash .floorDiv
  | mod : Multiplies .percent .mod

inductive Signs : Symbol → UnaryOp → Prop
  | pos : Signs .plus .pos
  | neg : Signs .minus .neg

inductive Compares : List Kind → CompareOp → Prop
  | eq : Compares [sym .equal] .eq
  | notEq : Compares [sym .notEqual] .notEq
  | lt : Compares [sym .less] .lt
  | le : Compares [sym .lessEqual] .le
  | gt : Compares [sym .greater] .gt
  | ge : Compares [sym .greaterEqual] .ge
  | isIn : Compares [word .inKw] .isIn
  | notIn : Compares [word .notKw, word .inKw] .notIn
  | same : Compares [word .isKw] .same
  | notSame : Compares [word .isKw, word .notKw] .notSame

/-- The operators are applied from left to right. -/
def leftwards (first : Expr) (others : List (BinaryOp × Expr)) : Expr :=
  others.foldl (fun left (op, right) => .binary op left right .start) first

inductive Trailer where
  | call (args : List Expr)
  | subscript (index : Expr)
  | member (attr : String)

def Trailer.onto (e : Expr) : Trailer → Expr
  | call args => .call e args .start
  | subscript index => .subscript e index .start
  | member attr => .member e attr .start

/-! ### Rules -/

/-- A part of an expression, with what it stands for. -/
inductive Phrase where
  | testList (e : Expr)
  | test (e : Expr)
  | orTest (e : Expr)
  | andTest (e : Expr)
  | notTest (e : Expr)
  | comparison (e : Expr)
  | arith (e : Expr)
  | term (e : Expr)
  | factor (e : Expr)
  | power (e : Expr)
  | primary (e : Expr)
  | atom (e : Expr)
  | items (es : List Expr)
  /-- The tests that follow one, each after a comma, and maybe a last comma. -/
  | moreTests (es : List Expr)
  | moreOr (es : List Expr)
  | moreAnd (es : List Expr)
  | moreLinks (links : List (CompareOp × Expr))
  | moreTerms (others : List (BinaryOp × Expr))
  | moreFactors (others : List (BinaryOp × Expr))
  | trailers (ts : List Trailer)

/-- The tokens make up the phrase by the rules of the grammar. -/
inductive Derives : List Kind → Phrase → Prop
  | testList {ks : List Kind} {e : Expr} : Derives ks (.test e) → Derives ks (.testList e)
  | openTuple {ks ks' : List Kind} {e : Expr} {es : List Expr} : Derives ks (.test e) →
      Derives ks' (.moreTests es) → ks' ≠ [] →
      Derives (ks ++ ks') (.testList (.tuple (e :: es) .start))
  | test {ks : List Kind} {e : Expr} : Derives ks (.orTest e) → Derives ks (.test e)
  | choice {ks ks' ks'' : List Kind} {body condition orelse : Expr} : Derives ks (.orTest body) →
      Derives ks' (.orTest condition) → Derives ks'' (.test orelse) →
      Derives (ks ++ word .ifKw :: (ks' ++ word .elseKw :: ks''))
        (.test (.choice condition body orelse .start))
  | orTest {ks : List Kind} {e : Expr} : Derives ks (.andTest e) → Derives ks (.orTest e)
  | disjunction {ks ks' : List Kind} {e : Expr} {es : List Expr} : Derives ks (.andTest e) →
      Derives ks' (.moreOr es) → es ≠ [] →
      Derives (ks ++ ks') (.orTest (.logic .or (e :: es) .start))
  | andTest {ks : List Kind} {e : Expr} : Derives ks (.notTest e) → Derives ks (.andTest e)
  | conjunction {ks ks' : List Kind} {e : Expr} {es : List Expr} : Derives ks (.notTest e) →
      Derives ks' (.moreAnd es) → es ≠ [] →
      Derives (ks ++ ks') (.andTest (.logic .and (e :: es) .start))
  | negation {ks : List Kind} {e : Expr} : Derives ks (.notTest e) →
      Derives (word .notKw :: ks) (.notTest (.unary .not e .start))
  | notTest {ks : List Kind} {e : Expr} : Derives ks (.comparison e) → Derives ks (.notTest e)
  | comparison {ks : List Kind} {e : Expr} : Derives ks (.arith e) → Derives ks (.comparison e)
  | chain {ks ks' : List Kind} {e : Expr} {links : List (CompareOp × Expr)} :
      Derives ks (.arith e) → Derives ks' (.moreLinks links) → links ≠ [] →
      Derives (ks ++ ks') (.comparison (.compare e links .start))
  | arith {ks ks' : List Kind} {e : Expr} {others : List (BinaryOp × Expr)} :
      Derives ks (.term e) → Derives ks' (.moreTerms others) →
      Derives (ks ++ ks') (.arith (leftwards e others))
  | term {ks ks' : List Kind} {e : Expr} {others : List (BinaryOp × Expr)} :
      Derives ks (.factor e) → Derives ks' (.moreFactors others) →
      Derives (ks ++ ks') (.term (leftwards e others))
  | sign {ks : List Kind} {e : Expr} {s : Symbol} {op : UnaryOp} : Signs s op →
      Derives ks (.factor e) → Derives (sym s :: ks) (.factor (.unary op e .start))
  | factor {ks : List Kind} {e : Expr} : Derives ks (.power e) → Derives ks (.factor e)
  | power {ks : List Kind} {e : Expr} : Derives ks (.primary e) → Derives ks (.power e)
  | raised {ks ks' : List Kind} {base exponent : Expr} : Derives ks (.primary base) →
      Derives ks' (.factor exponent) →
      Derives (ks ++ sym .doubleStar :: ks') (.power (.binary .pow base exponent .start))
  | primary {ks ks' : List Kind} {e : Expr} {ts : List Trailer} : Derives ks (.atom e) →
      Derives ks' (.trailers ts) → Derives (ks ++ ks') (.primary (ts.foldl Trailer.onto e))
  | name (id : String) : Derives [.name id] (.atom (.name id .start))
  | int (v : Int64) : Derives [.int v] (.atom (.const (.int v) .start))
  | float (v : Float) : Derives [.float v] (.atom (.const (.float v) .start))
  | true : Derives [word .trueKw] (.atom (.const (.bool true) .start))
  | false : Derives [word .falseKw] (.atom (.const (.bool false) .start))
  | none : Derives [word .noneKw] (.atom (.const .none .start))
  | strings (texts : List String) : texts ≠ [] →
      Derives (texts.map .str) (.atom (.const (.str (String.join texts)) .start))
  | emptyTuple : Derives [sym .openParen, sym .closeParen] (.atom (.tuple [] .start))
  | parenthesis {ks : List Kind} {e : Expr} : Derives ks (.test e) →
      Derives (sym .openParen :: (ks ++ [sym .closeParen])) (.atom e)
  | tuple {ks ks' : List Kind} {e : Expr} {es : List Expr} : Derives ks (.test e) →
      Derives ks' (.moreTests es) → ks' ≠ [] →
      Derives (sym .openParen :: (ks ++ (ks' ++ [sym .closeParen])))
        (.atom (.tuple (e :: es) .start))
  | list {ks : List Kind} {es : List Expr} : Derives ks (.items es) →
      Derives (sym .openBracket :: (ks ++ [sym .closeBracket])) (.atom (.list es .start))
  | noItems : Derives [] (.items [])
  | items {ks ks' : List Kind} {e : Expr} {es : List Expr} : Derives ks (.test e) →
      Derives ks' (.moreTests es) → Derives (ks ++ ks') (.items (e :: es))
  | noMoreTests : Derives [] (.moreTests [])
  | lastComma : Derives [sym .comma] (.moreTests [])
  | moreTests {ks ks' : List Kind} {e : Expr} {es : List Expr} : Derives ks (.test e) →
      Derives ks' (.moreTests es) → Derives (sym .comma :: (ks ++ ks')) (.moreTests (e :: es))
  | noMoreOr : Derives [] (.moreOr [])
  | moreOr {ks ks' : List Kind} {e : Expr} {es : List Expr} : Derives ks (.andTest e) →
      Derives ks' (.moreOr es) → Derives (word .orKw :: (ks ++ ks')) (.moreOr (e :: es))
  | noMoreAnd : Derives [] (.moreAnd [])
  | moreAnd {ks ks' : List Kind} {e : Expr} {es : List Expr} : Derives ks (.notTest e) →
      Derives ks' (.moreAnd es) → Derives (word .andKw :: (ks ++ ks')) (.moreAnd (e :: es))
  | noMoreLinks : Derives [] (.moreLinks [])
  | moreLinks {ks ks' ks'' : List Kind} {op : CompareOp} {e : Expr}
      {links : List (CompareOp × Expr)} : Compares ks op → Derives ks' (.arith e) →
      Derives ks'' (.moreLinks links) →
      Derives (ks ++ (ks' ++ ks'')) (.moreLinks ((op, e) :: links))
  | noMoreTerms : Derives [] (.moreTerms [])
  | moreTerms {ks ks' : List Kind} {s : Symbol} {op : BinaryOp} {e : Expr}
      {others : List (BinaryOp × Expr)} : Adds s op → Derives ks (.term e) →
      Derives ks' (.moreTerms others) →
      Derives (sym s :: (ks ++ ks')) (.moreTerms ((op, e) :: others))
  | noMoreFactors : Derives [] (.moreFactors [])
  | moreFactors {ks ks' : List Kind} {s : Symbol} {op : BinaryOp} {e : Expr}
      {others : List (BinaryOp × Expr)} : Multiplies s op → Derives ks (.factor e) →
      Derives ks' (.moreFactors others) →
      Derives (sym s :: (ks ++ ks')) (.moreFactors ((op, e) :: others))
  | noTrailers : Derives [] (.trailers [])
  | call {ks ks' : List Kind} {es : List Expr} {ts : List Trailer} : Derives ks (.items es) →
      Derives ks' (.trailers ts) →
      Derives (sym .openParen :: (ks ++ sym .closeParen :: ks')) (.trailers (.call es :: ts))
  | subscript {ks ks' : List Kind} {e : Expr} {ts : List Trailer} : Derives ks (.testList e) →
      Derives ks' (.trailers ts) →
      Derives (sym .openBracket :: (ks ++ sym .closeBracket :: ks'))
        (.trailers (.subscript e :: ts))
  | member {ks : List Kind} {ts : List Trailer} (attr : String) : Derives ks (.trailers ts) →
      Derives (sym .dot :: .name attr :: ks) (.trailers (.member attr :: ts))

/-! ### Reading a comma first -/

theorem Derives.moreTests_of_items {ks : List Kind} {es : List Expr} (h : Derives ks (.items es)) :
    Derives (sym .comma :: ks) (.moreTests es) := by
  cases h with
  | noItems => exact .lastComma
  | items first others => exact .moreTests first others

/-! ### What may follow, and what comes first -/

/-- How strongly a token is bound to what stands before it; none is the weakest. -/
def strength : Kind → Nat
  | .mark (.symbol .comma) => 1
  | .mark (.keyword .ifKw) | .mark (.keyword .elseKw) => 2
  | .mark (.keyword .orKw) => 3
  | .mark (.keyword .andKw) => 4
  | .mark (.symbol .equal) | .mark (.symbol .notEqual) | .mark (.symbol .less)
  | .mark (.symbol .lessEqual) | .mark (.symbol .greater) | .mark (.symbol .greaterEqual)
  | .mark (.keyword .inKw) | .mark (.keyword .notKw) | .mark (.keyword .isKw) => 5
  | .mark (.symbol .plus) | .mark (.symbol .minus) => 6
  | .mark (.symbol .star) | .mark (.symbol .slash) | .mark (.symbol .doubleSlash)
  | .mark (.symbol .percent) => 7
  | .mark (.symbol .doubleStar) => 8
  | .mark (.symbol .openParen) | .mark (.symbol .openBracket) | .mark (.symbol .dot) => 9
  | .str _ => 10
  | _ => 0

/-- The token may stand after a phrase of the level, which does not go on with it. -/
def Ends (level : Nat) (k : Kind) : Prop := strength k ≤ level

instance (level : Nat) (k : Kind) : Decidable (Ends level k) :=
  inferInstanceAs (Decidable (strength k ≤ level))

theorem Ends.mono {level level' : Nat} {k : Kind} (h : Ends level k) (le : level ≤ level') :
    Ends level' k := Nat.le_trans h le

theorem Ends.ne {level : Nat} {k k' : Kind} (h : Ends level k) (stronger : ¬ Ends level k') :
    k ≠ k' := fun same => stronger (same ▸ h)

/-- How tight the phrases are that the token can begin: none, one with a "not" before it, a signed
one, an atom. -/
def opening : Kind → Nat
  | .mark (.keyword .notKw) => 1
  | .mark (.symbol .plus) | .mark (.symbol .minus) => 2
  | .int _ | .float _ | .str _ | .name _ | .mark (.keyword .trueKw) | .mark (.keyword .falseKw)
  | .mark (.keyword .noneKw) | .mark (.symbol .openParen) | .mark (.symbol .openBracket) => 3
  | _ => 0

/-- The token may stand after tests and commas: it goes on with nothing and begins nothing. -/
def Closes (k : Kind) : Prop := Ends 0 k ∧ opening k = 0

/-- The least that the first token of the phrase must be able to begin. -/
def Phrase.opening : Phrase → Nat
  | testList _ | test _ | orTest _ | andTest _ | notTest _ => 1
  | comparison _ | arith _ | term _ | factor _ => 2
  | power _ | primary _ | atom _ => 3
  | _ => 0

/-- The phrase is the repeated part of another one, of which each round has the given level. -/
def Phrase.round? : Phrase → Option Nat
  | moreTests _ => some 1
  | moreOr _ => some 3
  | moreAnd _ => some 4
  | moreLinks _ => some 5
  | moreTerms _ => some 6
  | moreFactors _ => some 7
  | trailers _ => some 9
  | _ => none

/-- The sequence begins with a token that can begin phrases so tight. -/
def Opens (least : Nat) (ks : List Kind) : Prop := ∃ k ks', ks = k :: ks' ∧ least ≤ opening k

theorem Opens.append {least : Nat} {ks : List Kind} (h : Opens least ks) (ks' : List Kind) :
    Opens least (ks ++ ks') := by
  obtain ⟨k, ks, rfl, hk⟩ := h
  exact ⟨k, ks ++ ks', rfl, hk⟩

theorem Opens.mono {least least' : Nat} {ks : List Kind} (h : Opens least ks)
    (le : least' ≤ least) : Opens least' ks := by
  obtain ⟨k, ks, rfl, hk⟩ := h
  exact ⟨k, ks, rfl, Nat.le_trans le hk⟩

theorem Opens.headD_ne {least : Nat} {ks : List Kind} {k : Kind} (h : Opens least ks)
    (hk : opening k < least) (k' : Kind) : ks.headD k' ≠ k := by
  obtain ⟨k, ks, rfl, le⟩ := h
  rintro rfl
  exact Nat.not_lt_of_le le hk

theorem Derives.opens {ks : List Kind} {phrase : Phrase} (h : Derives ks phrase) :
    phrase.opening = 0 ∨ Opens phrase.opening ks := by
  have tighter {least least' : Nat} {ks : List Kind} (ih : least = 0 ∨ Opens least ks)
      (le : least' ≤ least) (some : least ≠ 0) : least' = 0 ∨ Opens least' ks :=
    .inr ((ih.resolve_left some).mono le)
  have longer {least : Nat} {ks : List Kind} (ks' : List Kind) (ih : least = 0 ∨ Opens least ks) :
      least = 0 ∨ Opens least (ks ++ ks') := ih.imp_right (·.append ks')
  induction h with
  | testList _ ih | test _ ih | orTest _ ih | andTest _ ih | power _ ih => exact ih
  | openTuple _ _ _ ih | disjunction _ _ _ ih | conjunction _ _ _ ih | chain _ _ _ ih =>
    exact longer _ ih
  | choice _ _ _ ih => exact longer _ ih
  | arith _ _ ih | term _ _ ih | raised _ _ ih | primary _ _ ih => exact longer _ ih
  | comparison _ ih => exact ih
  | notTest _ ih => exact tighter ih (Nat.le_succ 1) (Nat.succ_ne_zero 1)
  | factor _ ih => exact tighter ih (Nat.le_succ 2) (Nat.succ_ne_zero 2)
  | negation => exact .inr ⟨_, _, rfl, Nat.le_refl 1⟩
  | sign signs =>
    cases signs with
    | pos | neg => exact .inr ⟨_, _, rfl, Nat.le_refl 2⟩
  | name | int | float => exact .inr ⟨_, _, rfl, Nat.le_refl 3⟩
  | «true» | «false» | none | emptyTuple | parenthesis | tuple | list =>
    exact .inr ⟨_, _, rfl, Nat.le_refl 3⟩
  | strings texts ne =>
    obtain ⟨s, texts, rfl⟩ := List.exists_cons_of_ne_nil ne
    exact .inr ⟨_, _, rfl, Nat.le_refl 3⟩
  | _ => exact .inl rfl

theorem Derives.opens_of {ks : List Kind} {phrase : Phrase} {level : Nat} (h : Derives ks phrase)
    (some : phrase.opening = level + 1) : Opens (level + 1) ks := by
  rw [← some]
  apply h.opens.resolve_left
  rw [some]
  exact Nat.succ_ne_zero level

/-- What follows a round of a repeated part is the next round, or what follows the whole. -/
theorem Derives.ends_headD {ks : List Kind} {phrase : Phrase} {level : Nat} {k : Kind}
    (h : Derives ks phrase) (round : phrase.round? = some (level + 1)) (hk : Ends level k) :
    Ends (level + 1) (ks.headD k) := by
  have still : Ends (level + 1) k := Nat.le_succ_of_le hk
  cases h with
  | noMoreTests | noMoreOr | noMoreAnd | noMoreLinks | noMoreTerms | noMoreFactors | noTrailers =>
    exact still
  | lastComma | moreTests | moreOr | moreAnd | call | subscript | member =>
    exact Nat.le_of_eq (Option.some.inj round)
  | moreLinks compares =>
    cases compares with
    | eq | notEq | lt | le | gt | ge | isIn | notIn | same | notSame =>
      exact Nat.le_of_eq (Option.some.inj round)
  | moreTerms adds =>
    cases adds with
    | add | sub => exact Nat.le_of_eq (Option.some.inj round)
  | moreFactors multiplies =>
    cases multiplies with
    | mul | div | floorDiv | mod => exact Nat.le_of_eq (Option.some.inj round)
  | _ => cases round

/-- No phrase holds an assignment sign. -/
theorem Derives.not_mem_assign {ks : List Kind} {phrase : Phrase} (h : Derives ks phrase) :
    sym .assign ∉ ks := by
  induction h with
  | sign signs _ ih =>
    cases signs with
    | pos | neg => simpa using ih
  | moreTerms adds _ _ ih ih' =>
    cases adds with
    | add | sub => simpa using ⟨ih, ih'⟩
  | moreFactors multiplies _ _ ih ih' =>
    cases multiplies with
    | mul | div | floorDiv | mod => simpa using ⟨ih, ih'⟩
  | moreLinks compares _ _ ih ih' =>
    cases compares with
    | eq | notEq | lt | le | gt | ge | isIn | notIn | same | notSame => simpa using ⟨ih, ih'⟩
  | _ => simp_all

end Grammar

end Footprint
