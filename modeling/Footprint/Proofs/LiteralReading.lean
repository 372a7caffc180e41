import Footprint.Proofs.Literals
import Footprint.Proofs.ReadBlocks

set_option autoImplicit false

/-!
Texts of trees of literals are read back: the scan gives their tokens, the grammar derives literals,
lists and tuples from these, and evaluating them makes values with the same trees.
-/

namespace Footprint

open Token Grammar

namespace Datum

/-- The literal of an integer; a sign is an operator. -/
def intExpr (n : Int64) : Expr :=
  if n.toInt < 0 then .unary .neg (.const (.int (-n)) .start) .start else .const (.int n) .start

def intTokens (n : Int64) : List Kind :=
  if n.toInt < 0 then [sym .minus, .int (-n)] else [.int n]

mutual

/-- The expression that the text of the tree stands for. -/
def expr : Datum → Expr
  | bool b => .const (.bool b) .start
  | int n => intExpr n
  | str s => .const (.str s) .start
  | list items => .list (exprs items) .start
  | tuple items => .tuple (exprs items) .start
  | _ => .const .none .start

def exprs : List Datum → List Expr
  | [] => []
  | d :: ds => d.expr :: exprs ds

end

mutual

/-- The tokens of the text of the tree. -/
def tokens : Datum → List Kind
  | bool true => [word .trueKw]
  | bool false => [word .falseKw]
  | int n => intTokens n
  | str s => [.str s]
  | list items => sym .openBracket :: (tokensOf items ++ [sym .closeBracket])
  | tuple items =>
    sym .openParen :: (tokensOf items ++
      (if items.length = 1 then [sym .comma, sym .closeParen] else [sym .closeParen]))
  | _ => [word .noneKw]

def tokensOf : List Datum → List Kind
  | [] => []
  | d :: ds => d.tokens ++ tokensAfter ds

def tokensAfter : List Datum → List Kind
  | [] => []
  | d :: ds => sym .comma :: (d.tokens ++ tokensAfter ds)

end

/-! ### The scan -/

theorem text_int (n : Int64) : (Datum.int n).text =
    if n.toInt < 0 then '-' :: Nat.toDigits 10 (-n.toInt).toNat
      else Nat.toDigits 10 n.toInt.toNat := by
  rw [text]
  cases n.toInt with
  | ofNat k => exact String.toList_ofList
  | negSucc k =>
    rw [if_pos (Int.negSucc_lt_zero k)]
    change ("-" ++ String.ofList (Nat.toDigits 10 k.succ)).toList = _
    rw [String.toList_append]
    exact congrArg ('-' :: ·) String.toList_ofList

theorem toInt_neg {n : Int64} (h : n ≠ .minValue) : (-n).toInt = -n.toInt := by
  have least : n.toInt ≠ -2 ^ 63 := fun same =>
    h (Int64.toInt_inj.1 (same.trans Int64.toInt_minValue.symm))
  have lower := n.le_toInt
  have upper := n.toInt_lt
  rw [Int64.toInt_neg, Int.bmod_eq_of_le] <;> omega

section

variable {cs : List Char} {depth : Nat}

theorem stops_of_follow (k : Kind) (follow : ∀ c ∈ cs.head?, c ∈ separators) : k.Stops cs :=
  .inr fun c hc => .inl (follow c hc)

theorem scans_int {n : Int64} (h : n ≠ .minValue) (follow : ∀ c ∈ cs.head?, c ∈ separators) :
    Scans depth depth (intTokens n) ((Datum.int n).text ++ cs) cs := by
  rw [text_int, intTokens]
  split
  · next negative =>
    have digits : Nat.toDigits 10 (-n.toInt).toNat = (Kind.int (-n)).spelling := by
      rw [Kind.spelling, toInt_neg h]
    have magnitude : Scans depth depth [.int (-n)]
        ((Kind.int (-n)).spelling ++ cs) cs := by
      refine .token (decide_eq_true ?_) (stops_of_follow _ follow) rfl
      rw [toInt_neg h]
      omega
    have sign : (sym .minus).Stops ((Kind.int (-n)).spelling ++ cs) := by
      obtain ⟨d, ds, eq⟩ :=
        List.exists_cons_of_ne_nil (Nat.toDigits_ne_nil (b := 10) (n := (-n).toInt.toNat))
      refine .inr fun c hc => .inr (.inr ⟨?_, rfl⟩)
      rw [Kind.spelling, eq] at hc
      obtain rfl := Option.some.inj hc
      exact isDigit_of_mem_toDigits (eq ▸ List.mem_cons_self)
    rw [digits]
    have first : Scans depth depth [sym .minus]
        ((sym .minus).spelling ++ ((Kind.int (-n)).spelling ++ cs))
        ((Kind.int (-n)).spelling ++ cs) := .token rfl sign rfl
    exact first.trans magnitude
  · next positive =>
    exact .token (decide_eq_true (Int.not_lt.1 positive)) (stops_of_follow _ follow) rfl

theorem scans_comma (depth : Nat) (cs : List Char) :
    Scans depth depth [sym .comma] (',' :: cs) cs := .token (k := sym .comma) rfl (.inl rfl) rfl

/-- After an item comes a comma or what follows all items. -/
theorem follow_textAfter (ds : List Datum) (follow : ∀ c ∈ cs.head?, c ∈ separators) :
    ∀ c ∈ (textAfter ds ++ cs).head?, c ∈ separators := by
  cases ds with
  | nil => exact follow
  | cons d ds =>
    intro c hc
    obtain rfl := Option.some.inj hc
    simp [separators]

mutual

/-- The text of a tree of literals is scanned up to a separator or the end. -/
theorem scans_text (d : Datum) (h : d.isLiteral = true) (depth : Nat) (cs : List Char)
    (follow : ∀ c ∈ cs.head?, c ∈ separators) :
    Scans depth depth d.tokens (d.text ++ cs) cs := by
  cases d with
  | none => exact .token (k := word .noneKw) rfl (stops_of_follow _ follow) rfl
  | bool b =>
    cases b with
    | true => exact .token (k := word .trueKw) rfl (stops_of_follow _ follow) rfl
    | false => exact .token (k := word .falseKw) rfl (stops_of_follow _ follow) rfl
  | int n => exact scans_int (of_decide_eq_true h) follow
  | str s => exact .token (k := .str s) rfl (stops_of_follow _ follow) rfl
  | list items =>
    have inside := scans_textOf items h (depth + 1) (']' :: cs) (by simp [separators])
    have opens : Scans depth (depth + 1) [sym .openBracket]
        ('[' :: (textOf items ++ ']' :: cs)) (textOf items ++ ']' :: cs) :=
      .token (k := sym .openBracket) rfl (.inl rfl) rfl
    have closes : Scans (depth + 1) depth [sym .closeBracket] (']' :: cs) cs :=
      .token (k := sym .closeBracket) rfl (.inl rfl) rfl
    have all := opens.trans (inside.trans closes)
    rw [text, tokens, List.cons_append, List.append_assoc]
    exact all
  | tuple items =>
    let last : List Char := if items.length = 1 then [',', ')'] else [')']
    have inside := scans_textOf items h (depth + 1) (last ++ cs) (by
      intro c hc
      dsimp only [last] at hc
      split at hc <;> (obtain rfl := Option.some.inj hc; simp [separators]))
    have opens : Scans depth (depth + 1) [sym .openParen]
        ('(' :: (textOf items ++ (last ++ cs))) (textOf items ++ (last ++ cs)) :=
      .token (k := sym .openParen) rfl (.inl rfl) rfl
    have closes : Scans (depth + 1) depth
        (if items.length = 1 then [sym .comma, sym .closeParen] else [sym .closeParen])
        (last ++ cs) cs := by
      have paren : Scans (depth + 1) depth [sym .closeParen] (')' :: cs) cs :=
        .token (k := sym .closeParen) rfl (.inl rfl) rfl
      dsimp only [last]
      split
      · exact (scans_comma (depth + 1) (')' :: cs)).trans paren
      · exact paren
    have all := opens.trans (inside.trans closes)
    rw [text, tokens, List.cons_append, List.append_assoc]
    exact all
  | float | range | builtin | exceptionType | exception => cases h

theorem scans_textOf (ds : List Datum) (h : areLiterals ds = true) (depth : Nat) (cs : List Char)
    (follow : ∀ c ∈ cs.head?, c ∈ separators) :
    Scans depth depth (tokensOf ds) (textOf ds ++ cs) cs := by
  cases ds with
  | nil => exact .nil
  | cons d ds =>
    rw [areLiterals, Bool.and_eq_true] at h
    rw [tokensOf, textOf, List.append_assoc]
    have others := scans_textAfter ds h.2 depth cs follow
    exact (scans_text d h.1 depth _ (follow_textAfter ds follow)).trans others

theorem scans_textAfter (ds : List Datum) (h : areLiterals ds = true) (depth : Nat) (cs : List Char)
    (follow : ∀ c ∈ cs.head?, c ∈ separators) :
    Scans depth depth (tokensAfter ds) (textAfter ds ++ cs) cs := by
  cases ds with
  | nil => exact .nil
  | cons d ds =>
    rw [areLiterals, Bool.and_eq_true] at h
    rw [tokensAfter, textAfter, List.cons_append, List.cons_append, List.append_assoc]
    have others := scans_textAfter ds h.2 depth cs follow
    have first := (scans_text d h.1 depth _ (follow_textAfter ds follow)).trans others
    exact (scans_comma depth _).trans (Scans.space.trans first)

end

end

/-! ### The grammar -/

theorem derives_int (n : Int64) : Derives (intTokens n) (.test (intExpr n)) := by
  rw [intTokens, intExpr]
  split
  · have sign : Derives [sym .minus, .int (-n)]
        (.factor (.unary .neg (.const (.int (-n)) .start) .start)) :=
      .sign .neg (.factor (.power (.primary (.int (-n)) .noTrailers)))
    exact sign.term_of_factor.arith_of_term.test_of_arith
  · exact (Derives.int n).test_of_atom

mutual

/-- The tokens of a tree of literals make up its expression. -/
theorem derives_tokens (d : Datum) (h : d.isLiteral = true) : Derives d.tokens (.test d.expr) := by
  cases d with
  | none => exact Derives.none.test_of_atom
  | bool b =>
    cases b with
    | true => exact Derives.true.test_of_atom
    | false => exact Derives.false.test_of_atom
  | int n => exact derives_int n
  | str s =>
    have quoted := Derives.strings [s] (List.cons_ne_nil _ _)
    rw [show String.join [s] = s from String.empty_append] at quoted
    exact quoted.test_of_atom
  | list items => exact (Derives.list (derives_tokensOf items h)).test_of_atom
  | tuple items =>
    cases items with
    | nil => exact Derives.emptyTuple.test_of_atom
    | cons d ds =>
      have both : d.isLiteral = true ∧ areLiterals ds = true := Bool.and_eq_true_iff.1 h
      have first := derives_tokens d both.1
      have others := derives_tokensAfter ds both.2
      cases ds with
      | nil =>
        have one := Derives.tuple first .lastComma (List.cons_ne_nil _ _)
        rw [tokens, tokensOf, tokensAfter, List.append_nil]
        exact one.test_of_atom
      | cons d' ds =>
        have all := Derives.tuple first others (List.cons_ne_nil _ _)
        rw [tokens, tokensOf, List.append_assoc]
        exact all.test_of_atom
  | float | range | builtin | exceptionType | exception => cases h

theorem derives_tokensOf (ds : List Datum) (h : areLiterals ds = true) :
    Derives (tokensOf ds) (.items (exprs ds)) := by
  cases ds with
  | nil => exact .noItems
  | cons d ds =>
    rw [areLiterals, Bool.and_eq_true] at h
    exact .items (derives_tokens d h.1) (derives_tokensAfter ds h.2)

theorem derives_tokensAfter (ds : List Datum) (h : areLiterals ds = true) :
    Derives (tokensAfter ds) (.moreTests (exprs ds)) := by
  cases ds with
  | nil => exact .noMoreTests
  | cons d ds =>
    rw [areLiterals, Bool.and_eq_true] at h
    exact .moreTests (derives_tokens d h.1) (derives_tokensAfter ds h.2)

end

/-! ### The parser -/

/-- The text of a tree of literals begins with a character that is not passed over. -/
theorem text_eq_cons (d : Datum) (h : d.isLiteral = true) :
    ∃ c cs, d.text = c :: cs ∧ c ∉ blanks := by
  cases d with
  | none | list | tuple => exact ⟨_, _, rfl, by decide⟩
  | bool b => cases b <;> exact ⟨_, _, rfl, by decide⟩
  | str s => exact spelling_eq_cons (k := .str s) rfl
  | int n =>
    rw [text_int]
    split
    · exact ⟨_, _, rfl, by decide⟩
    · next positive =>
      exact spelling_eq_cons (k := .int n) (decide_eq_true (Int.not_lt.1 positive))
  | float | range | builtin | exceptionType | exception => cases h

theorem tokens_ne_nil (d : Datum) (h : d.isLiteral = true) : d.tokens ≠ [] := by
  intro none
  obtain ⟨k, ks, eq, -⟩ := (derives_tokens d h).opens_of rfl
  rw [none] at eq
  cases eq

theorem tokenize_text (d : Datum) (h : d.isLiteral = true) :
    ∃ ts, ts.map Token.kind = d.tokens ++ [.mark .newline, .mark .endOfFile] ∧
      tokenize (String.ofList d.text) = .ok ts := by
  obtain ⟨c, cs, eq, solid⟩ := d.text_eq_cons h
  have scans := scans_text d h 0 [] (by simp)
  rw [List.append_nil, eq] at scans
  rw [eq]
  exact tokenize_line solid (tokens_ne_nil d h) scans

/-- The text of a tree of literals is a script of its expression alone. -/
theorem parse_literal (d : Datum) (h : d.isLiteral = true) :
    ∃ e p, parse (String.ofList d.text) = .ok ⟨[.expr e p]⟩ ∧ e.unplaced = d.expr := by
  obtain ⟨ts, kinds, tokens⟩ := d.tokenize_text h
  have kinds : ts.map Token.kind = (d.tokens ++ [.mark .newline]) ++ [.mark .endOfFile] := by
    rw [kinds, List.append_assoc]
    rfl
  have derives := derives_tokens d h
  have leads (k : Kind) : Parser.Leads (d.tokens.headD k) := by
    obtain ⟨k, ks, eq, begins⟩ := derives.opens_of rfl
    rw [eq]
    exact .inl (Nat.one_le_iff_ne_zero.1 begins)
  have read := Parser.consumes_alone leads (Parser.parses_bare (.testList derives))
  obtain ⟨body, parsed, same⟩ := Parser.parse_of_consumes tokens kinds read
  obtain ⟨s, rfl, alone⟩ : ∃ s, body = [s] ∧ s.unplaced = .expr d.expr .start := by
    match body, same with
    | [s], same => exact ⟨s, rfl, (List.cons.inj same).1⟩
    | _ :: _ :: _, same => cases (List.cons.inj same).2
  cases s with
  | expr e p => exact ⟨e, p, parsed, (Stmt.expr.inj alone).1⟩
  | _ => cases alone

end Datum

namespace Store

/-- The store has the lists of another one, and maybe more. -/
def Grows (s s' : Store) : Prop :=
  ∀ (i : Nat) (items : Array Value), s.lists[i]? = some items → s'.lists[i]? = some items

variable {s s' s'' : Store}

theorem Grows.refl (s : Store) : s.Grows s := fun _ _ h => h

theorem Grows.trans (h : s.Grows s') (h' : s'.Grows s'') : s.Grows s'' :=
  fun i items at_ => h' i items (h i items at_)

theorem grows_newList (s : Store) (items : Array Value) : s.Grows (newList items s).2 := by
  intro i stored at_
  have inside : i < s.lists.size := (Array.getElem?_eq_some_iff.1 at_).1
  change (s.lists.push items)[i]? = _
  rw [Array.getElem?_push_lt inside]
  exact (Array.getElem?_eq_getElem inside).symm.trans at_

mutual

theorem Holds.mono {v : Value} {d : Datum} (h : s.Holds v d) (grows : s.Grows s') :
    s'.Holds v d := by
  cases h with
  | none => exact .none
  | bool b => exact .bool b
  | int n => exact .int n
  | str t => exact .str t
  | list at_ items => exact .list (grows _ _ at_) (HoldsAll.mono items grows)
  | tuple items => exact .tuple (HoldsAll.mono items grows)

theorem HoldsAll.mono {vs : List Value} {ds : List Datum} (h : s.HoldsAll vs ds)
    (grows : s.Grows s') : s'.HoldsAll vs ds := by
  cases h with
  | nil => exact .nil
  | cons first others => exact .cons (Holds.mono first grows) (HoldsAll.mono others grows)

end

end Store

/-! ### Evaluation -/

section

variable {σ : Type} (env : Setting σ)

namespace Datum

open Footprint.Action

/-- From the machine on, the computation does nothing but make lists and tuples, and what it gives
is so. -/
def MakesFrom {α : Type} (m : Machine σ) (x : Action σ α) (Q : Store → α → Prop) : Prop :=
  ∃ a s, x m = .done a { m with store := s } ∧ m.store.Grows s ∧ Q s a

theorem MakesFrom.bind {α β : Type} {x : Action σ α} {f : α → Action σ β} {Q : Store → α → Prop}
    {R : Store → β → Prop} {m : Machine σ} (hx : MakesFrom m x Q)
    (hf : ∀ a s, m.store.Grows s → Q s a → MakesFrom { m with store := s } (f a) R) :
    MakesFrom m (x >>= f) R := by
  obtain ⟨a, s, eq, grows, hQ⟩ := hx
  obtain ⟨b, s', eq', grows', hR⟩ := hf a s grows hQ
  refine ⟨b, s', ?_, grows.trans grows', hR⟩
  rw [bind_apply, eq]
  exact eq'

theorem MakesFrom.pure {α : Type} {a : α} {Q : Store → α → Prop} {m : Machine σ}
    (h : Q m.store a) : MakesFrom m (pure a) Q := ⟨a, m.store, rfl, .refl _, h⟩

theorem makes_const {k : Constant} {e : Expr} (same : e.unplaced = .const k .start) {n : Nat}
    (enough : 1 ≤ n) {d : Datum} (h : ∀ s : Store, s.Holds k.value d) (m : Machine σ) :
    MakesFrom m (env.evaluate n (.expr e)) fun s w => s.Holds w d := by
  obtain ⟨n, rfl⟩ : ∃ j, n = j + 1 := ⟨n - 1, by omega⟩
  cases e with
  | const k' p =>
    obtain ⟨rfl, -⟩ := Expr.const.inj same
    exact .pure (h _)
  | _ => cases same

theorem unary_neg (s : Store) {n : Int64} (h : n ≠ .minValue) :
    s.unary .neg (.int (-n)) = .ok (.int n) := by
  change narrow (-(-n).toInt) = _
  rw [toInt_neg h, Int.neg_neg, narrow, Decimal.narrow?_toInt]

theorem makes_intExpr {n : Int64} (h : n ≠ .minValue) {e : Expr} (same : e.unplaced = intExpr n)
    {k : Nat} (enough : 2 ≤ k) (m : Machine σ) :
    MakesFrom m (env.evaluate k (.expr e)) fun s w => s.Holds w (.int n) := by
  obtain ⟨k, rfl⟩ : ∃ j, k = j + 1 := ⟨k - 1, by omega⟩
  rw [intExpr] at same
  split at same
  · cases e with
    | unary op operand p =>
      obtain ⟨rfl, inside, -⟩ := Expr.unary.inj same
      have operand := makes_const env inside (n := k) (by omega) (d := .int (-n))
        (fun _ => .int _) m
      refine operand.bind (f := fun a => readAt p (·.unary .neg a)) fun a s _ ha => ?_
      cases ha
      refine ⟨.int n, s, ?_, .refl _, .int n⟩
      simp only [readAt, observe, unary_neg s h]
      rfl
    | _ => cases same
  · exact makes_const env same (by omega) (fun _ => .int n) m

mutual

/-- Evaluating the expression of a tree of literals makes a value with that tree. -/
theorem makes_expr (d : Datum) (h : d.isLiteral = true) {e : Expr} (same : e.unplaced = d.expr)
    {n : Nat} (enough : sizeOf d + 1 ≤ n) (m : Machine σ) :
    MakesFrom m (env.evaluate n (.expr e)) fun s w => s.Holds w d := by
  cases d with
  | none => exact makes_const env same (by omega) (fun _ => .none) m
  | bool b => exact makes_const env same (by omega) (fun _ => .bool b) m
  | str t => exact makes_const env same (by omega) (fun _ => .str t) m
  | int k =>
    simp only [int.sizeOf_spec] at enough
    exact makes_intExpr env (of_decide_eq_true h) same (by omega) m
  | list ds =>
    simp only [list.sizeOf_spec] at enough
    obtain ⟨n, rfl⟩ : ∃ j, n = j + 1 := ⟨n - 1, by omega⟩
    cases e with
    | list items p =>
      have inside := makes_exprs ds h (Expr.list.inj same).1 (n := n) (by omega) m
      refine inside.bind (f := fun vs => edit (Store.newList vs.toArray)) fun vs s _ hvs => ?_
      have grows := Store.grows_newList s vs.toArray
      have made : (Store.newList vs.toArray s).2.lists[s.lists.size]? = some vs.toArray :=
        Array.getElem?_push_size
      exact ⟨_, _, rfl, grows, .list made (hvs.mono grows)⟩
    | _ => cases same
  | tuple ds =>
    simp only [tuple.sizeOf_spec] at enough
    obtain ⟨n, rfl⟩ : ∃ j, n = j + 1 := ⟨n - 1, by omega⟩
    cases e with
    | tuple items p =>
      have inside := makes_exprs ds h (Expr.tuple.inj same).1 (n := n) (by omega) m
      refine inside.bind (f := fun vs => edit (Store.newTuple vs)) fun vs s _ hvs => ?_
      exact ⟨_, _, rfl, .refl _, .tuple (hvs.mono (.refl _))⟩
    | _ => cases same
  | float | range | builtin | exceptionType | exception => cases h

theorem makes_exprs (ds : List Datum) (h : areLiterals ds = true) {es : List Expr}
    (same : Expr.unplacedAll es = exprs ds) {n : Nat} (enough : sizeOf ds + 1 ≤ n)
    (m : Machine σ) :
    MakesFrom m (Setting.evalAll (env.evaluate n) es) fun s ws => s.HoldsAll ws ds := by
  cases ds with
  | nil =>
    cases es with
    | nil => exact .pure .nil
    | cons e es => cases same
  | cons d ds =>
    rw [areLiterals, Bool.and_eq_true] at h
    simp only [List.cons.sizeOf_spec] at enough
    cases es with
    | nil => cases same
    | cons e es =>
      obtain ⟨first, others⟩ := List.cons.inj same
      refine (makes_expr d h.1 first (n := n) (by omega) m).bind fun v s _ hv => ?_
      refine (makes_exprs ds h.2 others (n := n) (by omega) _).bind fun vs s' grows hvs => ?_
      exact .pure (.cons (hv.mono grows) hvs)

end

end Datum

end

/-- A value that is a tree of literals is read back from its text as an item: the text is a script
of one expression, and evaluating that gives, whatever the state, a value of the same type and with
the same tree, which is equal to any value with that tree. A string is read back from its text in
quotes. -/
theorem repr_read :
    (∀ (s : Store) (v : Value) (d : Datum), s.Holds v d → d.isLiteral = true →
      ∃ text e p, s.repr? v = some text ∧ parse text = .ok ⟨[.expr e p]⟩ ∧
        ∀ {σ : Type} (env : Setting σ) (m : Machine σ), ∃ least, ∀ n ≥ least, ∃ w s',
          env.evaluate n (.expr e) m = .done w { m with store := s' } ∧
            w.typeName = v.typeName ∧ s'.Holds w d ∧
              ∀ u, m.store.Holds u d → s'.equal? w u = some true) ∧
      ∀ t : String, ∃ ts, tokenize (Text.quoted t) = .ok ts ∧
        ts.map Token.kind = [.str t, .mark .newline, .mark .endOfFile] := by
  constructor
  · intro s v d h literal
    obtain ⟨e, p, parsed, same⟩ := d.parse_literal literal
    refine ⟨_, e, p, h.repr?_eq, parsed, fun env m => ⟨sizeOf d + 1, fun n enough => ?_⟩⟩
    obtain ⟨w, s', eval, grows, hw⟩ := Datum.makes_expr env d literal same enough m
    exact ⟨w, s', eval, hw.typeName_eq h, hw, fun u hu => hw.equal? (hu.mono grows)⟩
  · intro t
    obtain ⟨ts, kinds, tokens⟩ := (Datum.str t).tokenize_text rfl
    exact ⟨ts, tokens, kinds⟩

/-- A list with a negative integer, a tuple of one text with both kinds of quotes and an empty
list. -/
theorem repr_read_nested :
    let s : Store := ⟨#[#[.int (-5), .tuple 7 [.str "\"it's\n"], .list ⟨1⟩], #[]], #[], #[], 8⟩
    ∃ text e p, s.repr? (.list ⟨0⟩) = some text ∧ parse text = .ok ⟨[.expr e p]⟩ ∧
      ∀ {σ : Type} (env : Setting σ) (m : Machine σ), ∃ least, ∀ n ≥ least, ∃ w s',
        env.evaluate n (.expr e) m = .done w { m with store := s' } ∧ w.typeName = "list" ∧
          s'.Holds w (.list [.int (-5), .tuple [.str "\"it's\n"], .list []]) ∧
            ∀ u, m.store.Holds u (.list [.int (-5), .tuple [.str "\"it's\n"], .list []]) →
              s'.equal? w u = some true :=
  repr_read.1 _ _ (.list [.int (-5), .tuple [.str "\"it's\n"], .list []])
    (.list rfl
      (.cons (.int _) (.cons (.tuple (.cons (.str _) .nil)) (.cons (.list rfl .nil) .nil))))
    (by decide)

end Footprint
