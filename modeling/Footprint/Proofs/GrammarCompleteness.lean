import Footprint.Parser.Stmt
import Footprint.Proofs.GrammarSoundness

set_option autoImplicit false

/-!
The parser of expressions reads all that the grammar derives. A token after a phrase ends it if the
token is too weak to go on with it, and then the parser of the phrase stops there.
-/

namespace Footprint

open Token

namespace Parser

open Grammar

theorem isAtExpression_apply (c : Cursor) :
    isAtExpression c = .ok (decide (opening c.front.kind ≠ 0), c) := by
  unfold isAtExpression
  congr 2
  cases c.front.kind with
  | int | float | str | name => rfl
  | mark m =>
    cases m with
    | keyword k => cases k <;> rfl
    | symbol s => cases s <;> rfl
    | newline | indent | dedent | endOfFile => rfl

/-- The parser passes the tokens if one that is allowed to follow comes after them, and stops before
that one. -/
def Takes {α : Type} (x : Parse α) (ks : List Kind) (follow : Kind → Prop) (Q : α → Prop) : Prop :=
  ∀ ⦃c : Cursor⦄ ⦃p : List Token⦄ ⦃t : Token⦄ ⦃rest : List Token⦄, p.map Token.kind = ks →
    follow t.kind → c.ahead = p ++ t :: rest →
    ∃ a c', x c = .ok (a, c') ∧ c'.ahead = t :: rest ∧ Q a

namespace Takes

variable {α β : Type} {ks ks' : List Kind} {F G : Kind → Prop} {Q : α → Prop}

theorem pure {a : α} (h : Q a) : Takes (pure a) [] F Q := by
  intro c p t rest hp _ before
  obtain rfl := List.map_eq_nil_iff.1 hp
  exact ⟨a, c, rfl, before, h⟩

/-- The kind of the token after some. -/
theorem front_kind {c : Cursor} {p rest : List Token} {t : Token} (hp : p.map Token.kind = ks)
    (before : c.ahead = p ++ t :: rest) : c.front.kind = ks.headD t.kind := by
  subst hp
  cases p with
  | nil => rw [(List.cons.inj before).1]; rfl
  | cons u p => rw [(List.cons.inj before).1]; rfl

theorem bind {x : Parse β} {f : β → Parse α} {P : β → Prop} (hx : Takes x ks F P)
    (hf : ∀ b, P b → Takes (f b) ks' G Q) (follows : ∀ k, G k → F (ks'.headD k)) :
    Takes (x >>= f) (ks ++ ks') G Q := by
  intro c p t rest hp ht before
  obtain ⟨q, r, rfl, hq, hr⟩ := List.map_eq_append_iff.1 hp
  rw [List.append_assoc] at before
  obtain ⟨u, rest', hu⟩ : ∃ u rest', r ++ t :: rest = u :: rest' :=
    List.exists_cons_of_ne_nil (by simp)
  have kind : u.kind = ks'.headD t.kind := by
    have front := front_kind (c := ⟨u, rest', 0⟩) hr hu.symm
    exact front
  obtain ⟨b, c', read, between, hP⟩ := hx hq (kind ▸ follows _ ht) (hu ▸ before)
  obtain ⟨a, c'', read', after, hQ⟩ := hf b hP hr ht (between.trans hu.symm)
  refine ⟨a, c'', ?_, after, hQ⟩
  change (x c >>= fun r => f r.1 r.2) = _
  rw [read]
  exact read'

/-- The last parser of a sequence may pass nothing. -/
theorem bindLast {x : Parse β} {f : β → Parse α} {P : β → Prop} (hx : Takes x ks F P)
    (hf : ∀ b, P b → Takes (f b) [] G Q) (follows : ∀ k, G k → F k) : Takes (x >>= f) ks G Q := by
  have all := hx.bind hf follows
  rwa [List.append_nil] at all

theorem peek {f : Kind → Parse α} (hf : ∀ k, F k → Takes (f (ks.headD k)) ks F Q) :
    Takes (peek >>= f) ks F Q := by
  intro c p t rest hp ht before
  change ∃ a c', f c.front.kind c = _ ∧ _
  rw [front_kind hp before]
  exact hf _ ht hp ht before

theorem here {f : Position → Parse α} (hf : ∀ p, Takes (f p) ks F Q) :
    Takes (here >>= f) ks F Q := fun _ _ _ _ hp ht before => hf _ hp ht before

theorem advance {k : Kind} {f : Unit → Parse α} (other : k.isMark .endOfFile = false)
    (hf : Takes (f ()) ks F Q) : Takes (advance >>= f) (k :: ks) F Q := by
  intro c p t rest hp ht before
  obtain ⟨u, q, rfl, rfl, hq⟩ := List.map_eq_cons_iff.1 hp
  refine hf hq ht ?_
  have unended : u.kind ≠ .mark .endOfFile := by
    intro ended
    rw [ended] at other
    cases other
  cases q with
  | nil => exact Cursor.ahead_next before unended
  | cons v q => exact Cursor.ahead_next before unended

theorem accepted {m : Mark} {f : Bool → Parse α} (other : (Kind.mark m).isMark .endOfFile = false)
    (hf : Takes (f true) ks F Q) : Takes (accept m >>= f) (.mark m :: ks) F Q := by
  intro c p t rest hp ht before
  have found : c.front.kind.isMark m = true := Kind.isMark_iff.2 (front_kind hp before)
  have passed : Takes (Parser.advance >>= fun _ => f true) (.mark m :: ks) F Q :=
    advance other hf
  obtain ⟨a, c', read, after, hQ⟩ := passed hp ht before
  refine ⟨a, c', ?_, after, hQ⟩
  change ((if c.front.kind.isMark m then Except.ok (true, c.next) else .ok (false, c)) >>=
    fun r => f r.1 r.2) = _
  rw [if_pos found]
  exact read

theorem not_accepted {m : Mark} {f : Bool → Parse α} (missing : ∀ k, F k → ks.headD k ≠ .mark m)
    (hf : Takes (f false) ks F Q) : Takes (Parser.accept m >>= f) ks F Q := by
  intro c p t rest hp ht before
  have unfound : ¬ c.front.kind.isMark m = true := by
    rw [front_kind hp before]
    exact fun found => missing _ ht (Kind.isMark_iff.1 found)
  obtain ⟨a, c', read, after, hQ⟩ := hf hp ht before
  refine ⟨a, c', ?_, after, hQ⟩
  change ((if c.front.kind.isMark m then Except.ok (true, c.next) else .ok (false, c)) >>=
    fun r => f r.1 r.2) = _
  rw [if_neg unfound]
  exact read

theorem accept {m : Mark} {x y : Parse α} (other : (Kind.mark m).isMark .endOfFile = false)
    (hx : Takes x ks F Q) :
    Takes (do if ← Parser.accept m then x else y) (.mark m :: ks) F Q := accepted other hx

theorem accept_not {m : Mark} {x y : Parse α} (missing : ∀ k, F k → ks.headD k ≠ .mark m)
    (hy : Takes y ks F Q) : Takes (do if ← Parser.accept m then x else y) ks F Q :=
  not_accepted missing hy

theorem isAt {m : Mark} {x y : Parse α} (found : ∀ k, F k → ks.headD k = .mark m)
    (hx : Takes x ks F Q) : Takes (do if ← isAt m then x else y) ks F Q := by
  intro c p t rest hp ht before
  obtain ⟨a, c', read, after, hQ⟩ := hx hp ht before
  refine ⟨a, c', ?_, after, hQ⟩
  change (if c.front.kind.isMark m then x else y) c = _
  rw [if_pos (Kind.isMark_iff.2 ((front_kind hp before).trans (found _ ht)))]
  exact read

theorem isAt_not {m : Mark} {x y : Parse α} (missing : ∀ k, F k → ks.headD k ≠ .mark m)
    (hy : Takes y ks F Q) : Takes (do if ← Parser.isAt m then x else y) ks F Q := by
  intro c p t rest hp ht before
  obtain ⟨a, c', read, after, hQ⟩ := hy hp ht before
  refine ⟨a, c', ?_, after, hQ⟩
  change (if c.front.kind.isMark m then x else y) c = _
  rw [front_kind hp before, if_neg fun found => missing _ ht (Kind.isMark_iff.1 found)]
  exact read

theorem expect {m : Mark} {place : Place} {f : Unit → Parse α}
    (other : (Kind.mark m).isMark .endOfFile = false) (hf : Takes (f ()) ks F Q) :
    Takes (expect m place >>= f) (.mark m :: ks) F Q := by
  intro c p t rest hp ht before
  have found : c.front.kind.isMark m = true := Kind.isMark_iff.2 (front_kind hp before)
  have passed : Takes (Parser.advance >>= f) (.mark m :: ks) F Q :=
    advance other hf
  obtain ⟨a, c', read, after, hQ⟩ := passed hp ht before
  refine ⟨a, c', ?_, after, hQ⟩
  change ((if c.front.kind.isMark m then Except.ok ((), c.next)
    else .error ⟨.missing m place c.front.kind, c.front.pos⟩) >>= fun r => f r.1 r.2) = _
  rw [if_pos found]
  exact read

theorem identifier {s : String} {f : String → Parse α} (hf : Takes (f s) ks F Q) :
    Takes (identifier >>= f) (.name s :: ks) F Q := by
  intro c p t rest hp ht before
  have named : c.front.kind = .name s := front_kind hp before
  have passed : Takes (Parser.advance >>= fun _ => f s) (.name s :: ks) F Q := advance rfl hf
  obtain ⟨a, c', read, after, hQ⟩ := passed hp ht before
  refine ⟨a, c', ?_, after, hQ⟩
  change (Parser.identifier c >>= fun r => f r.1 r.2) = _
  unfold Parser.identifier
  rw [named]
  exact read

theorem isAtExpression {b : Bool} {f : Bool → Parse α}
    (h : ∀ k, F k → (opening (ks.headD k) ≠ 0 ↔ b = true)) (hf : Takes (f b) ks F Q) :
    Takes (isAtExpression >>= f) ks F Q := by
  intro c p t rest hp ht before
  obtain ⟨a, c', read, after, hQ⟩ := hf hp ht before
  refine ⟨a, c', ?_, after, hQ⟩
  change (Parser.isAtExpression c >>= fun r => f r.1 r.2) = _
  have found : decide (opening c.front.kind ≠ 0) = b := by
    rw [front_kind hp before, Bool.eq_iff_iff, decide_eq_true_iff]
    exact h _ ht
  rw [isAtExpression_apply, found]
  exact read

/-- An argument of which no part is an assignment sign does not begin with a keyword. -/
theorem isAtKeywordArgument {f : Bool → Parse α} (some : ks ≠ []) (unassigned : sym .assign ∉ ks)
    (follow : ∀ k, F k → k ≠ sym .assign) (hf : Takes (f false) ks F Q) :
    Takes (isAtKeywordArgument >>= f) ks F Q := by
  intro c p t rest hp ht before
  obtain ⟨a, c', read, after, hQ⟩ := hf hp ht before
  refine ⟨a, c', ?_, after, hQ⟩
  change (Parser.isAtKeywordArgument c >>= fun r => f r.1 r.2) = _
  have second : c.rest.head?.map Token.kind ≠ .some (sym .assign) := by
    subst hp
    cases p with
    | nil => exact absurd rfl some
    | cons u p =>
      rw [(List.cons.inj before).2]
      cases p with
      | nil => exact fun h => follow _ ht (Option.some.inj h)
      | cons v p =>
        intro h
        apply unassigned
        simp [← Option.some.inj h]
  have looked := (isAtKeywordArgument_apply c).resolve_left fun h => second h.2
  rw [looked]
  exact read

theorem peekSecond {k k' : Kind} {f : Option Kind → Parse α}
    (hf : Takes (f (some k')) (k :: k' :: ks) F Q) :
    Takes (peekSecond >>= f) (k :: k' :: ks) F Q := by
  intro c p t rest hp ht before
  obtain ⟨u, q, rfl, -, hq⟩ := List.map_eq_cons_iff.1 hp
  obtain ⟨v, q, rfl, hv, -⟩ := List.map_eq_cons_iff.1 hq
  have second : c.rest.head?.map Token.kind = some k' := by
    rw [(List.cons.inj before).2]
    exact congrArg some hv
  change ∃ a c', f (c.rest.head?.map Token.kind) c = _ ∧ _
  rw [second]
  exact hf hp ht before

/-- The operators of two words are told from those of one by the second word. -/
theorem compareOp {op : CompareOp} (h : Compares ks op) :
    Takes compareOp? ks (· ≠ word .notKw) (· = some op) := by
  unfold compareOp?
  cases h with
  | eq | notEq | lt | le | gt | ge | isIn => exact .peek fun _ _ => .advance rfl (.pure rfl)
  | notIn => exact .peek fun _ _ => .peekSecond (.advance rfl (.advance rfl (.pure rfl)))
  | same => exact .peek fun _ _ => .advance rfl (.not_accepted (fun _ hk => hk) (.pure rfl))
  | notSame => exact .peek fun _ _ => .advance rfl (.accepted rfl (.pure rfl))

theorem noCompareOp : Takes compareOp? [] (Ends 4) (· = none) := by
  unfold compareOp?
  refine .peek fun k hk => ?_
  dsimp only [List.headD]
  split
  case h_10 => exact .pure rfl
  all_goals exact absurd hk (by decide)

end Takes

/-! ### Phrases that are parsed -/

/-- With enough depth for the tokens, the parser passes them. -/
def Parses {α : Type} (x : Nat → Parse α) (extra : Nat) (ks : List Kind) (follow : Kind → Prop)
    (Q : α → Prop) : Prop := ∀ n, 12 * ks.length + extra ≤ n → Takes (x n) ks follow Q

theorem Parses.next {α : Type} {x : Nat → Parse α} {extra : Nat} {ks : List Kind}
    {F : Kind → Prop} {Q : α → Prop}
    (h : ∀ n, 12 * ks.length + extra ≤ n → Takes (x (n + 1)) ks F Q) :
    Parses x (extra + 1) ks F Q := by
  rintro (_ | n) hn
  · omega
  · exact h n (by omega)

/-- The tokens are parsed as tests between parentheses or brackets. -/
structure ParsedItems (ks : List Kind) (es : List Expr) : Prop where
  arguments : Parses arguments 12 ks (· = sym .closeParen) (Expr.unplacedAll · = es)
  testsUntil (close : Symbol) : close = .closeParen ∨ close = .closeBracket →
    Parses (testsUntil close) 12 ks (· = sym close) (Expr.unplacedAll · = es)

/-- The tokens are parsed as the phrase. -/
def Parsed (ks : List Kind) : Phrase → Prop
  | .testList e => Parses testList 12 ks Closes (Expr.unplaced · = e)
  | .test e => Parses test 11 ks (Ends 1) (Expr.unplaced · = e)
  | .orTest e => Parses orTest 10 ks (Ends 2) (Expr.unplaced · = e)
  | .andTest e => Parses andTest 9 ks (Ends 3) (Expr.unplaced · = e)
  | .notTest e => Parses notTest 8 ks (Ends 4) (Expr.unplaced · = e)
  | .comparison e => Parses comparison 7 ks (Ends 4) (Expr.unplaced · = e)
  | .arith e => Parses arith 6 ks (Ends 5) (Expr.unplaced · = e)
  | .term e => Parses term 5 ks (Ends 6) (Expr.unplaced · = e)
  | .factor e => Parses factor 4 ks (Ends 7) (Expr.unplaced · = e)
  | .power e => Parses power 3 ks (Ends 7) (Expr.unplaced · = e)
  | .primary e => Parses primary 2 ks (Ends 8) (Expr.unplaced · = e)
  | .atom e => Parses atom 1 ks (Ends 9) (Expr.unplaced · = e)
  | .items es => ParsedItems ks es
  | .moreTests es => Parses moreTests 1 ks Closes (Expr.unplacedAll · = es) ∧
    (ks = [] ∧ es = [] ∨ ∃ ks', ks = sym .comma :: ks' ∧ ParsedItems ks' es)
  | .moreOr es => Parses moreOr 1 ks (Ends 2) (Expr.unplacedAll · = es)
  | .moreAnd es => Parses moreAnd 1 ks (Ends 3) (Expr.unplacedAll · = es)
  | .moreLinks links => Parses moreLinks 1 ks (Ends 4) (Expr.unplacedLinks · = links)
  | .moreTerms others => ∀ left : Expr, Parses (moreTerms · left) 1 ks (Ends 5)
    fun e => e.unplaced = leftwards left.unplaced others
  | .moreFactors others => ∀ left : Expr, Parses (moreFactors · left) 1 ks (Ends 6)
    fun e => e.unplaced = leftwards left.unplaced others
  | .trailers ts => ∀ e : Expr, Parses (trailers · e) 1 ks (Ends 8)
    fun e' => e'.unplaced = ts.foldl Trailer.onto e.unplaced

section

variable {ks ks' ks'' : List Kind} {e e' e'' : Expr} {es : List Expr}

theorem parsed_testList (h : Parsed ks (.test e)) : Parsed ks (.testList e) := by
  refine Parses.next fun n hn => ?_
  unfold testList
  refine .bindLast (h n hn) (fun first he => ?_) fun k hk => hk.1.mono (Nat.zero_le 1)
  exact .isAt_not (fun k hk => hk.1.ne (by decide)) (.pure he)

theorem parsed_openTuple (h : Parsed ks (.test e)) (h' : Parsed ks' (.moreTests es))
    (some : ks' ≠ []) : Parsed (ks ++ ks') (.testList (.tuple (e :: es) .start)) := by
  obtain ⟨more, ⟨none, -⟩ | ⟨ks₀, rfl, -⟩⟩ := h'
  · exact absurd none some
  refine Parses.next fun n hn => ?_
  rw [List.length_append] at hn
  unfold testList
  refine .bind (h n (by omega)) (fun first he => ?_) fun _ _ => Nat.le_refl 1
  refine .isAt (fun _ _ => rfl) ?_
  refine .bindLast (more n (by omega)) (fun others hes => .pure ?_) fun _ hk => hk
  simp [he, hes]

theorem parsed_test (h : Parsed ks (.orTest e)) : Parsed ks (.test e) := by
  refine Parses.next fun n hn => ?_
  unfold test
  refine .bindLast (h n hn) (fun body he => ?_) fun k hk => hk.mono (Nat.le_succ 1)
  exact .accept_not (fun k hk => hk.ne (by decide)) (.pure he)

theorem parsed_choice (h : Parsed ks (.orTest e)) (h' : Parsed ks' (.orTest e'))
    (h'' : Parsed ks'' (.test e'')) :
    Parsed (ks ++ word .ifKw :: (ks' ++ word .elseKw :: ks''))
      (.test (.choice e' e e'' .start)) := by
  refine Parses.next fun n hn => ?_
  simp only [List.length_append, List.length_cons] at hn
  unfold test
  refine .bind (h n (by omega)) (fun body he => ?_) fun _ _ => Nat.le_refl 2
  refine .accept rfl (.bind (h' n (by omega)) (fun condition he' => ?_) fun _ _ => Nat.le_refl 2)
  refine .expect rfl (.bindLast (h'' n (by omega)) (fun orelse he'' => .pure ?_) fun _ hk => hk)
  simp [he, he', he'']

theorem parsed_noMoreOr : Parsed [] (.moreOr []) := by
  refine Parses.next fun n _ => ?_
  unfold moreOr
  exact .accept_not (fun k hk => hk.ne (by decide)) (.pure rfl)

theorem parsed_moreOr (h : Parsed ks (.andTest e)) (h' : Parsed ks' (.moreOr es))
    (next : ∀ k, Ends 2 k → Ends 3 (ks'.headD k)) :
    Parsed (word .orKw :: (ks ++ ks')) (.moreOr (e :: es)) := by
  refine Parses.next fun n hn => ?_
  simp only [List.length_append, List.length_cons] at hn
  unfold moreOr
  refine .accept rfl (.bind (h n (by omega)) (fun first he => ?_) next)
  refine .bindLast (h' n (by omega)) (fun others hes => .pure ?_) fun _ hk => hk
  simp [he, hes]

theorem parsed_orTest (h : Parsed ks (.andTest e)) : Parsed ks (.orTest e) := by
  refine Parses.next fun n hn => ?_
  unfold orTest
  refine .bindLast (h n hn) (fun first he => ?_) fun k hk => hk.mono (Nat.le_succ 2)
  refine .bindLast (parsed_noMoreOr n (by simp; omega)) (fun others hes => ?_) fun _ hk => hk
  cases others with
  | nil => exact .pure he
  | cons second others => cases hes

theorem parsed_disjunction (h : Parsed ks (.andTest e)) (h' : Parsed ks' (.moreOr es))
    (some : es ≠ []) (next : ∀ k, Ends 2 k → Ends 3 (ks'.headD k)) :
    Parsed (ks ++ ks') (.orTest (.logic .or (e :: es) .start)) := by
  refine Parses.next fun n hn => ?_
  rw [List.length_append] at hn
  unfold orTest
  refine .bind (h n (by omega)) (fun first he => ?_) next
  refine .bindLast (h' n (by omega)) (fun others hes => ?_) fun _ hk => hk
  cases others with
  | nil => exact absurd hes.symm some
  | cons second others => exact .pure (by simp [he, ← hes])

theorem parsed_noMoreAnd : Parsed [] (.moreAnd []) := by
  refine Parses.next fun n _ => ?_
  unfold moreAnd
  exact .accept_not (fun k hk => hk.ne (by decide)) (.pure rfl)

theorem parsed_moreAnd (h : Parsed ks (.notTest e)) (h' : Parsed ks' (.moreAnd es))
    (next : ∀ k, Ends 3 k → Ends 4 (ks'.headD k)) :
    Parsed (word .andKw :: (ks ++ ks')) (.moreAnd (e :: es)) := by
  refine Parses.next fun n hn => ?_
  simp only [List.length_append, List.length_cons] at hn
  unfold moreAnd
  refine .accept rfl (.bind (h n (by omega)) (fun first he => ?_) next)
  refine .bindLast (h' n (by omega)) (fun others hes => .pure ?_) fun _ hk => hk
  simp [he, hes]

theorem parsed_andTest (h : Parsed ks (.notTest e)) : Parsed ks (.andTest e) := by
  refine Parses.next fun n hn => ?_
  unfold andTest
  refine .bindLast (h n hn) (fun first he => ?_) fun k hk => hk.mono (Nat.le_succ 3)
  refine .bindLast (parsed_noMoreAnd n (by simp; omega)) (fun others hes => ?_) fun _ hk => hk
  cases others with
  | nil => exact .pure he
  | cons second others => cases hes

theorem parsed_conjunction (h : Parsed ks (.notTest e)) (h' : Parsed ks' (.moreAnd es))
    (some : es ≠ []) (next : ∀ k, Ends 3 k → Ends 4 (ks'.headD k)) :
    Parsed (ks ++ ks') (.andTest (.logic .and (e :: es) .start)) := by
  refine Parses.next fun n hn => ?_
  rw [List.length_append] at hn
  unfold andTest
  refine .bind (h n (by omega)) (fun first he => ?_) next
  refine .bindLast (h' n (by omega)) (fun others hes => ?_) fun _ hk => hk
  cases others with
  | nil => exact absurd hes.symm some
  | cons second others => exact .pure (by simp [he, ← hes])

theorem parsed_negation (h : Parsed ks (.notTest e)) :
    Parsed (word .notKw :: ks) (.notTest (.unary .not e .start)) := by
  refine Parses.next fun n hn => ?_
  rw [List.length_cons] at hn
  unfold notTest
  refine .here fun p => .accept rfl ?_
  exact .bindLast (h n (by omega)) (fun operand he => .pure (by simp [he])) fun _ hk => hk

theorem parsed_notTest (h : Parsed ks (.comparison e)) (opens : Opens 2 ks) :
    Parsed ks (.notTest e) := by
  refine Parses.next fun n hn => ?_
  unfold notTest
  exact .here fun p => .accept_not (fun k _ => opens.headD_ne (by decide) k) (h n hn)

theorem parsed_noMoreLinks : Parsed [] (.moreLinks []) := by
  refine Parses.next fun n _ => ?_
  unfold moreLinks
  refine .bindLast .noCompareOp (fun found none => ?_) fun _ hk => hk
  subst none
  exact .pure rfl

theorem parsed_moreLinks {op : CompareOp} {links : List (CompareOp × Expr)}
    (compares : Compares ks op) (h : Parsed ks' (.arith e)) (h' : Parsed ks'' (.moreLinks links))
    (opens : Opens 2 ks') (next : ∀ k, Ends 4 k → Ends 5 (ks''.headD k)) :
    Parsed (ks ++ (ks' ++ ks'')) (.moreLinks ((op, e) :: links)) := by
  refine Parses.next fun n hn => ?_
  simp only [List.length_append] at hn
  have some : 0 < ks.length := by cases compares <;> decide
  unfold moreLinks
  refine .bind (.compareOp compares) (fun found hop => ?_) fun k _ => ?_
  · subst hop
    refine .bind (h n (by omega)) (fun first he => ?_) next
    refine .bindLast (h' n (by omega)) (fun others hlinks => .pure ?_) fun _ hk => hk
    simp [he, hlinks]
  · exact (opens.append ks'').headD_ne (by decide) k

theorem parsed_comparison (h : Parsed ks (.arith e)) : Parsed ks (.comparison e) := by
  refine Parses.next fun n hn => ?_
  unfold comparison
  refine .bindLast (h n hn) (fun left he => ?_) fun k hk => hk.mono (Nat.le_succ 4)
  refine .bindLast (parsed_noMoreLinks n (by simp; omega)) (fun links h => ?_) fun _ hk => hk
  cases links with
  | nil => exact .pure he
  | cons link links => cases h

theorem parsed_chain {links : List (CompareOp × Expr)} (h : Parsed ks (.arith e))
    (h' : Parsed ks' (.moreLinks links)) (some : links ≠ [])
    (next : ∀ k, Ends 4 k → Ends 5 (ks'.headD k)) :
    Parsed (ks ++ ks') (.comparison (.compare e links .start)) := by
  refine Parses.next fun n hn => ?_
  rw [List.length_append] at hn
  unfold comparison
  refine .bind (h n (by omega)) (fun left he => ?_) next
  refine .bindLast (h' n (by omega)) (fun found hlinks => ?_) fun _ hk => hk
  cases found with
  | nil => exact absurd hlinks.symm some
  | cons link found => exact .pure (by simp [he, ← hlinks])

theorem parsed_arith {others : List (BinaryOp × Expr)} (h : Parsed ks (.term e))
    (h' : Parsed ks' (.moreTerms others)) (next : ∀ k, Ends 5 k → Ends 6 (ks'.headD k)) :
    Parsed (ks ++ ks') (.arith (leftwards e others)) := by
  refine Parses.next fun n hn => ?_
  rw [List.length_append] at hn
  unfold arith
  refine .bind (h n (by omega)) (fun left he => ?_) next
  subst he
  exact h' left n (by omega)

theorem parsed_noMoreTerms : Parsed [] (.moreTerms []) := by
  intro left
  refine Parses.next fun n _ => ?_
  unfold moreTerms
  refine .peek fun k hk => ?_
  have none : arithOp? k = none := by
    unfold arithOp?
    split
    · exact absurd hk (by decide)
    · exact absurd hk (by decide)
    · rfl
  rw [List.headD_nil, none]
  exact .pure rfl

theorem parsed_moreTerms {s : Symbol} {op : BinaryOp} {others : List (BinaryOp × Expr)}
    (adds : Adds s op) (h : Parsed ks (.term e)) (h' : Parsed ks' (.moreTerms others))
    (next : ∀ k, Ends 5 k → Ends 6 (ks'.headD k)) :
    Parsed (sym s :: (ks ++ ks')) (.moreTerms ((op, e) :: others)) := by
  intro left
  refine Parses.next fun n hn => ?_
  simp only [List.length_append, List.length_cons] at hn
  unfold moreTerms
  refine .peek fun _ _ => ?_
  have found : arithOp? (sym s) = some op := by cases adds <;> rfl
  rw [List.headD_cons, found]
  refine .advance rfl (.bind (h n (by omega)) (fun right he => ?_) next)
  subst he
  exact h' _ n (by omega)

theorem parsed_term {others : List (BinaryOp × Expr)} (h : Parsed ks (.factor e))
    (h' : Parsed ks' (.moreFactors others)) (next : ∀ k, Ends 6 k → Ends 7 (ks'.headD k)) :
    Parsed (ks ++ ks') (.term (leftwards e others)) := by
  refine Parses.next fun n hn => ?_
  rw [List.length_append] at hn
  unfold term
  refine .bind (h n (by omega)) (fun left he => ?_) next
  subst he
  exact h' left n (by omega)

theorem parsed_noMoreFactors : Parsed [] (.moreFactors []) := by
  intro left
  refine Parses.next fun n _ => ?_
  unfold moreFactors
  refine .peek fun k hk => ?_
  have none : termOp? k = none := by
    unfold termOp?
    split
    case h_5 => rfl
    all_goals exact absurd hk (by decide)
  rw [List.headD_nil, none]
  exact .pure rfl

theorem parsed_moreFactors {s : Symbol} {op : BinaryOp} {others : List (BinaryOp × Expr)}
    (multiplies : Multiplies s op) (h : Parsed ks (.factor e))
    (h' : Parsed ks' (.moreFactors others)) (next : ∀ k, Ends 6 k → Ends 7 (ks'.headD k)) :
    Parsed (sym s :: (ks ++ ks')) (.moreFactors ((op, e) :: others)) := by
  intro left
  refine Parses.next fun n hn => ?_
  simp only [List.length_append, List.length_cons] at hn
  unfold moreFactors
  refine .peek fun _ _ => ?_
  have found : termOp? (sym s) = some op := by cases multiplies <;> rfl
  rw [List.headD_cons, found]
  refine .advance rfl (.bind (h n (by omega)) (fun right he => ?_) next)
  subst he
  exact h' _ n (by omega)

theorem parsed_sign {s : Symbol} {op : UnaryOp} (signs : Signs s op) (h : Parsed ks (.factor e)) :
    Parsed (sym s :: ks) (.factor (.unary op e .start)) := by
  refine Parses.next fun n hn => ?_
  rw [List.length_cons] at hn
  unfold factor
  refine .here fun p => .peek fun _ _ => ?_
  have found : signOp? (sym s) = some op := by cases signs <;> rfl
  rw [List.headD_cons, found]
  refine .advance rfl ?_
  exact .bindLast (h n (by omega)) (fun operand he => .pure (by simp [he])) fun _ hk => hk

theorem parsed_factor (h : Parsed ks (.power e)) (opens : Opens 3 ks) :
    Parsed ks (.factor e) := by
  refine Parses.next fun n hn => ?_
  unfold factor
  refine .here fun p => .peek fun k _ => ?_
  have none : signOp? (ks.headD k) = none := by
    unfold signOp?
    split
    · next minus => exact absurd minus (opens.headD_ne (by decide) k)
    · next plus => exact absurd plus (opens.headD_ne (by decide) k)
    · rfl
  rw [none]
  exact h n hn

theorem parsed_power (h : Parsed ks (.primary e)) : Parsed ks (.power e) := by
  refine Parses.next fun n hn => ?_
  unfold power
  refine .bindLast (h n hn) (fun base he => ?_) fun k hk => hk.mono (Nat.le_succ 7)
  exact .accept_not (fun k hk => hk.ne (by decide)) (.pure he)

theorem parsed_raised (h : Parsed ks (.primary e)) (h' : Parsed ks' (.factor e')) :
    Parsed (ks ++ sym .doubleStar :: ks') (.power (.binary .pow e e' .start)) := by
  refine Parses.next fun n hn => ?_
  simp only [List.length_append, List.length_cons] at hn
  unfold power
  refine .bind (h n (by omega)) (fun base he => .accept rfl ?_) fun _ _ => Nat.le_refl 8
  refine .bindLast (h' n (by omega)) (fun exponent he' => .pure ?_) fun _ hk => hk
  simp [he, he']

theorem parsed_primary {ts : List Trailer} (h : Parsed ks (.atom e))
    (h' : Parsed ks' (.trailers ts)) (next : ∀ k, Ends 8 k → Ends 9 (ks'.headD k)) :
    Parsed (ks ++ ks') (.primary (ts.foldl Trailer.onto e)) := by
  refine Parses.next fun n hn => ?_
  rw [List.length_append] at hn
  unfold primary
  refine .bind (h n (by omega)) (fun base he => ?_) next
  subst he
  exact h' base n (by omega)

theorem parsed_noTrailers : Parsed [] (.trailers []) := by
  intro e
  refine Parses.next fun n _ => ?_
  unfold trailers
  refine .accept_not (fun k hk => hk.ne (by decide)) ?_
  refine .accept_not (fun k hk => hk.ne (by decide)) ?_
  exact .accept_not (fun k hk => hk.ne (by decide)) (.pure rfl)

theorem parsed_call {ts : List Trailer} (h : Parsed ks (.items es))
    (h' : Parsed ks' (.trailers ts)) :
    Parsed (sym .openParen :: (ks ++ sym .closeParen :: ks')) (.trailers (.call es :: ts)) := by
  intro e
  refine Parses.next fun n hn => ?_
  simp only [List.length_append, List.length_cons] at hn
  unfold trailers
  refine .accept rfl (.bind (h.arguments n (by omega)) (fun args hes => ?_) fun _ _ => rfl)
  subst hes
  exact .expect rfl (h' _ n (by omega))

theorem parsed_subscript {ts : List Trailer} (h : Parsed ks (.testList e'))
    (h' : Parsed ks' (.trailers ts)) :
    Parsed (sym .openBracket :: (ks ++ sym .closeBracket :: ks'))
      (.trailers (.subscript e' :: ts)) := by
  intro e
  refine Parses.next fun n hn => ?_
  simp only [List.length_append, List.length_cons] at hn
  unfold trailers
  refine .accept_not (fun _ _ => Kind.ne_of_isMark rfl) (.accept rfl ?_)
  refine .bind (h n (by omega)) (fun index he => ?_) fun _ _ => ⟨Nat.le_refl 0, rfl⟩
  subst he
  exact .expect rfl (h' _ n (by omega))

theorem parsed_member {ts : List Trailer} (attr : String) (h : Parsed ks (.trailers ts)) :
    Parsed (sym .dot :: .name attr :: ks) (.trailers (.member attr :: ts)) := by
  intro e
  refine Parses.next fun n hn => ?_
  simp only [List.length_cons] at hn
  unfold trailers
  refine .accept_not (fun _ _ => Kind.ne_of_isMark rfl) ?_
  refine .accept_not (fun _ _ => Kind.ne_of_isMark rfl) ?_
  exact .accept rfl (.identifier (h _ n (by omega)))

theorem takes_adjacentStrings (texts : List String) {n : Nat} (hn : texts.length < n) :
    Takes (adjacentStrings n) (texts.map .str) (Ends 9) (· = String.join texts) := by
  induction texts generalizing n with
  | nil =>
    obtain ⟨n, rfl⟩ := Nat.exists_eq_succ_of_ne_zero (Nat.ne_of_gt hn)
    unfold adjacentStrings
    refine .peek fun k hk => ?_
    rw [List.map_nil, List.headD_nil]
    split
    · exact absurd hk (Nat.not_succ_le_self 9)
    · exact .pure rfl
  | cons s texts ih =>
    obtain ⟨n, rfl⟩ := Nat.exists_eq_succ_of_ne_zero (Nat.ne_of_gt (Nat.zero_lt_of_lt hn))
    unfold adjacentStrings
    refine .peek fun _ _ => .advance rfl ?_
    refine .bindLast (ih (Nat.lt_of_succ_lt_succ hn)) (fun text h => .pure ?_) fun _ hk => hk
    rw [h, String.join_cons]

theorem parsed_strings {texts : List String} (some : texts ≠ []) :
    Parsed (texts.map .str) (.atom (.const (.str (String.join texts)) .start)) := by
  refine Parses.next fun n hn => ?_
  rw [List.length_map] at hn
  obtain ⟨s, others, rfl⟩ := List.exists_cons_of_ne_nil some
  have taken := takes_adjacentStrings (s :: others) (n := n) (by simp at hn ⊢; omega)
  unfold atom
  refine .here fun p => .peek fun _ _ => ?_
  exact .bindLast taken (fun text h => .pure (by simp [h])) fun _ hk => hk

theorem parsed_emptyTuple :
    Parsed [sym .openParen, sym .closeParen] (.atom (.tuple [] .start)) := by
  refine Parses.next fun n _ => ?_
  unfold atom
  refine .here fun p => .peek fun _ _ => .advance rfl (.accept rfl (.pure rfl))

theorem parsed_parenthesis (h : Parsed ks (.test e)) (opens : Opens 1 ks) :
    Parsed (sym .openParen :: (ks ++ [sym .closeParen])) (.atom e) := by
  refine Parses.next fun n hn => ?_
  simp only [List.length_append, List.length_cons] at hn
  unfold atom
  refine .here fun p => .peek fun _ _ => .advance rfl (.accept_not (fun k _ => ?_) ?_)
  · exact (opens.append _).headD_ne (by decide) k
  refine .bind (h n (by omega)) (fun first he => ?_) fun _ _ => Nat.zero_le 1
  exact .accept_not (fun _ _ => Kind.ne_of_isMark rfl) (.expect rfl (.pure he))

theorem parsed_tuple (h : Parsed ks (.test e)) (h' : Parsed ks' (.moreTests es))
    (some : ks' ≠ []) (opens : Opens 1 ks) :
    Parsed (sym .openParen :: (ks ++ (ks' ++ [sym .closeParen])))
      (.atom (.tuple (e :: es) .start)) := by
  obtain ⟨-, ⟨none, -⟩ | ⟨ks₀, rfl, items⟩⟩ := h'
  · exact absurd none some
  refine Parses.next fun n hn => ?_
  simp only [List.length_append, List.length_cons] at hn
  unfold atom
  refine .here fun p => .peek fun _ _ => .advance rfl (.accept_not (fun k _ => ?_) ?_)
  · exact (opens.append _).headD_ne (by decide) k
  refine .bind (h n (by omega)) (fun first he => .accept rfl ?_) fun _ _ => Nat.le_refl 1
  refine .bind (items.testsUntil _ (.inl rfl) n (by omega)) (fun others hes => ?_) fun _ _ => rfl
  exact .expect rfl (.pure (by simp [he, hes]))

theorem parsed_list (h : Parsed ks (.items es)) :
    Parsed (sym .openBracket :: (ks ++ [sym .closeBracket])) (.atom (.list es .start)) := by
  refine Parses.next fun n hn => ?_
  simp only [List.length_append, List.length_cons] at hn
  unfold atom
  refine .here fun p => .peek fun _ _ => .advance rfl ?_
  refine .bind (h.testsUntil _ (.inr rfl) n (by omega)) (fun items hes => ?_) fun _ _ => rfl
  exact .expect rfl (.pure (by simp [hes]))

theorem parsed_noItems : Parsed [] (.items []) where
  arguments := by
    refine Parses.next fun n _ => ?_
    unfold arguments
    exact .isAt (fun k hk => hk) (.pure rfl)
  testsUntil close _ := by
    refine Parses.next fun n _ => ?_
    unfold testsUntil
    exact .isAt (fun k hk => hk) (.pure rfl)

/-- One test, and after a comma what goes on with the items. -/
theorem takes_items {first : Parse Expr} {more : Parse (List Expr)} {close : Symbol}
    (closes : close = .closeParen ∨ close = .closeBracket)
    (h : Takes first ks (Ends 1) (Expr.unplaced · = e))
    (h' : ks' = [] ∧ es = [] ∨ ∃ ks₀, ks' = sym .comma :: ks₀ ∧
      Takes more ks₀ (· = sym close) (Expr.unplacedAll · = es)) :
    Takes (do
        let e ← first
        if ← accept (.symbol .comma) then return e :: (← more) else return [e])
      (ks ++ ks') (· = sym close) (Expr.unplacedAll · = e :: es) := by
  rcases h' with ⟨rfl, rfl⟩ | ⟨ks₀, rfl, h'⟩
  · refine .bind h (fun first he => ?_) ?_
    · refine .accept_not ?_ (.pure (by simp [he]))
      rintro k rfl
      rcases closes with rfl | rfl <;> exact Kind.ne_of_isMark rfl
    · rintro k rfl
      rcases closes with rfl | rfl <;> exact Nat.zero_le 1
  · refine .bind h (fun first he => .accept rfl ?_) fun _ _ => Nat.le_refl 1
    exact .bindLast h' (fun others hes => .pure (by simp [he, hes])) fun _ hk => hk

theorem parsed_items (h : Parsed ks (.test e)) (h' : Parsed ks' (.moreTests es))
    (opens : Opens 1 ks) (unassigned : sym .assign ∉ ks ++ ks') :
    ParsedItems (ks ++ ks') (e :: es) := by
  obtain ⟨-, h'⟩ := h'
  have unclosed {s : Symbol} (closes : s = .closeParen ∨ s = .closeBracket) (k : Kind) :
      (ks ++ ks').headD k ≠ sym s := by
    apply (opens.append ks').headD_ne
    rcases closes with rfl | rfl <;> decide
  have others {more : Parse (List Expr)} {close : Symbol}
      (taken : ∀ ks₀, ks' = sym .comma :: ks₀ → ParsedItems ks₀ es →
        Takes more ks₀ (· = sym close) (Expr.unplacedAll · = es)) :
      ks' = [] ∧ es = [] ∨ ∃ ks₀, ks' = sym .comma :: ks₀ ∧
        Takes more ks₀ (· = sym close) (Expr.unplacedAll · = es) :=
    h'.imp_right fun ⟨ks₀, hks, items⟩ => ⟨ks₀, hks, taken ks₀ hks items⟩
  constructor
  · refine Parses.next fun n hn => ?_
    rw [List.length_append] at hn
    unfold arguments
    refine .isAt_not (fun k _ => unclosed (.inl rfl) k) ?_
    refine .isAtKeywordArgument ?_ unassigned ?_ ?_
    · obtain ⟨k, ks₀, rfl, -⟩ := opens
      exact List.cons_ne_nil _ _
    · rintro k rfl
      exact Kind.ne_of_isMark rfl
    refine takes_items (.inl rfl) (h n (by omega)) (others fun ks₀ hks items => ?_)
    exact items.arguments n (by rw [hks, List.length_cons] at hn; omega)
  · intro close closes
    refine Parses.next fun n hn => ?_
    rw [List.length_append] at hn
    unfold testsUntil
    refine .isAt_not (fun k _ => unclosed closes k) ?_
    refine takes_items closes (h n (by omega)) (others fun ks₀ hks items => ?_)
    exact items.testsUntil close closes n (by rw [hks, List.length_cons] at hn; omega)

theorem parsed_noMoreTests : Parsed [] (.moreTests []) := by
  refine ⟨Parses.next fun n _ => ?_, .inl ⟨rfl, rfl⟩⟩
  unfold moreTests
  exact .accept_not (fun k hk => hk.1.ne (by decide)) (.pure rfl)

theorem parsed_lastComma : Parsed [sym .comma] (.moreTests []) := by
  refine ⟨Parses.next fun n _ => ?_, .inr ⟨[], rfl, parsed_noItems⟩⟩
  unfold moreTests
  refine .accept rfl (.isAtExpression (b := false) (fun k hk => ?_) (.pure rfl))
  simpa using hk.2

theorem parsed_moreTests (h : Parsed ks (.test e)) (h' : Parsed ks' (.moreTests es))
    (opens : Opens 1 ks) (unassigned : sym .assign ∉ ks ++ ks')
    (next : ∀ k, Ends 0 k → Ends 1 (ks'.headD k)) :
    Parsed (sym .comma :: (ks ++ ks')) (.moreTests (e :: es)) := by
  refine ⟨Parses.next fun n hn => ?_, .inr ⟨_, rfl, parsed_items h h' opens unassigned⟩⟩
  simp only [List.length_append, List.length_cons] at hn
  unfold moreTests
  refine .accept rfl (.isAtExpression (b := true) (fun k _ => ?_) ?_)
  · obtain ⟨k', ks₀, rfl, le⟩ := opens
    simpa using Nat.ne_of_gt le
  refine .bind (h n (by omega)) (fun first he => ?_) fun k hk => next k hk.1
  refine .bindLast (h'.1 n (by omega)) (fun others hes => .pure ?_) fun _ hk => hk
  simp [he, hes]

end

theorem parsed_of_derives {ks : List Kind} {phrase : Phrase} (h : Derives ks phrase) :
    Parsed ks phrase := by
  induction h with
  | testList _ ih => exact parsed_testList ih
  | openTuple _ _ some ih ih' => exact parsed_openTuple ih ih' some
  | test _ ih => exact parsed_test ih
  | choice _ _ _ ih ih' ih'' => exact parsed_choice ih ih' ih''
  | orTest _ ih => exact parsed_orTest ih
  | disjunction _ h' some ih ih' =>
    exact parsed_disjunction ih ih' some fun _ => h'.ends_headD rfl
  | andTest _ ih => exact parsed_andTest ih
  | conjunction _ h' some ih ih' =>
    exact parsed_conjunction ih ih' some fun _ => h'.ends_headD rfl
  | negation _ ih => exact parsed_negation ih
  | notTest h ih => exact parsed_notTest ih (h.opens_of rfl)
  | comparison _ ih => exact parsed_comparison ih
  | chain _ h' some ih ih' => exact parsed_chain ih ih' some fun _ => h'.ends_headD rfl
  | arith _ h' ih ih' => exact parsed_arith ih ih' fun _ => h'.ends_headD rfl
  | term _ h' ih ih' => exact parsed_term ih ih' fun _ => h'.ends_headD rfl
  | sign signs _ ih => exact parsed_sign signs ih
  | factor h ih => exact parsed_factor ih (h.opens_of rfl)
  | power _ ih => exact parsed_power ih
  | raised _ _ ih ih' => exact parsed_raised ih ih'
  | primary _ h' ih ih' => exact parsed_primary ih ih' fun _ => h'.ends_headD rfl
  | name | int | float | «true» | «false» | none =>
    refine Parses.next fun n _ => ?_
    unfold atom
    exact .here fun p => .peek fun _ _ => .advance rfl (.pure rfl)
  | strings texts some => exact parsed_strings some
  | emptyTuple => exact parsed_emptyTuple
  | parenthesis h ih => exact parsed_parenthesis ih (h.opens_of rfl)
  | tuple h _ some ih ih' => exact parsed_tuple ih ih' some (h.opens_of rfl)
  | list _ ih => exact parsed_list ih
  | noItems => exact parsed_noItems
  | items h h' ih ih' =>
    exact parsed_items ih ih' (h.opens_of rfl) (Derives.items h h').not_mem_assign
  | noMoreTests => exact parsed_noMoreTests
  | lastComma => exact parsed_lastComma
  | moreTests h h' ih ih' =>
    exact parsed_moreTests ih ih' (h.opens_of rfl) (Derives.items h h').not_mem_assign
      fun _ => h'.ends_headD rfl
  | noMoreOr => exact parsed_noMoreOr
  | moreOr _ h' ih ih' => exact parsed_moreOr ih ih' fun _ => h'.ends_headD rfl
  | noMoreAnd => exact parsed_noMoreAnd
  | moreAnd _ h' ih ih' => exact parsed_moreAnd ih ih' fun _ => h'.ends_headD rfl
  | noMoreLinks => exact parsed_noMoreLinks
  | moreLinks compares h h' ih ih' =>
    exact parsed_moreLinks compares ih ih' (h.opens_of rfl) fun _ => h'.ends_headD rfl
  | noMoreTerms => exact parsed_noMoreTerms
  | moreTerms adds _ h' ih ih' => exact parsed_moreTerms adds ih ih' fun _ => h'.ends_headD rfl
  | noMoreFactors => exact parsed_noMoreFactors
  | moreFactors multiplies _ h' ih ih' =>
    exact parsed_moreFactors multiplies ih ih' fun _ => h'.ends_headD rfl
  | noTrailers => exact parsed_noTrailers
  | call _ _ ih ih' => exact parsed_call ih ih'
  | subscript _ _ ih ih' => exact parsed_subscript ih ih'
  | member attr _ ih => exact parsed_member attr ih

/-! ### Parsing and deriving -/

section

variable {c : Cursor} {p rest : List Token} {newline : Token} {n : Nat}
  (before : c.ahead = p ++ newline :: rest) (ends : newline.kind = .mark .newline)

include before ends

theorem derives_of_testList {tree : Expr} {c' : Cursor}
    (read : testList n c = .ok (tree, c')) (after : c'.ahead = newline :: rest) :
    Derives (p.map Token.kind) (.testList tree.unplaced) := by
  obtain ⟨q, r, rfl, after', derived⟩ := (allMake n).testList ends before trivial read
  have all : [] ++ newline :: rest = r ++ newline :: rest := after.symm.trans after'
  obtain rfl := List.append_cancel_right all
  rwa [List.append_nil]

theorem testList_of_derives (deep : depthFor p.length ≤ n) {e : Expr}
    (h : Derives (p.map Token.kind) (.testList e)) :
    ∃ tree c', testList n c = .ok (tree, c') ∧ c'.ahead = newline :: rest ∧ tree.unplaced = e := by
  have enough : 12 * (p.map Token.kind).length + 12 ≤ n := by
    rw [List.length_map]
    unfold depthFor at deep
    omega
  have closes : Closes newline.kind := by
    rw [ends]
    exact ⟨Nat.le_refl 0, rfl⟩
  exact parsed_of_derives h n enough rfl closes before

/-- Expressions are parsed by the grammar: tokens before the end of a line are read up to there with
a tree, its positions aside, just if they derive it, and they derive one tree at most. -/
theorem testList_iff_derives (deep : depthFor p.length ≤ n) :
    (∀ e : Expr, (∃ tree c', testList n c = .ok (tree, c') ∧ c'.ahead = newline :: rest ∧
        tree.unplaced = e) ↔ Derives (p.map Token.kind) (.testList e)) ∧
    ∀ e e' : Expr, Derives (p.map Token.kind) (.testList e) →
      Derives (p.map Token.kind) (.testList e') → e = e' := by
  refine ⟨fun e => ⟨?_, testList_of_derives before ends deep⟩, fun e e' h h' => ?_⟩
  · rintro ⟨tree, c', read, after, rfl⟩
    exact derives_of_testList before ends read after
  · obtain ⟨tree, c', read, -, rfl⟩ := testList_of_derives before ends deep h
    obtain ⟨tree', c'', read', -, rfl⟩ := testList_of_derives before ends deep h'
    rw [read] at read'
    cases read'
    rfl

end

/-- `a not in -b ** 2,` -/
theorem testList_iff_derives_tuple :
    let kinds : List Kind := [.name "a", word .notKw, word .inKw, sym .minus, .name "b",
      sym .doubleStar, .int 2, sym .comma]
    let newline : Token := ⟨.mark .newline, ⟨1, 17⟩, 2⟩
    let c := Cursor.ofTokens (kinds.map (⟨·, .start, 1⟩) ++ [newline])
    let power : Expr := .binary .pow (.name "b" .start) (.const (.int 2) .start) .start
    c.ahead = kinds.map (⟨·, .start, 1⟩) ++ [newline] ∧ newline.kind = .mark .newline ∧
    Derives kinds (.testList (.tuple
      [.compare (.name "a" .start) [(.notIn, .unary .neg power .start)] .start] .start)) := by
  intro kinds newline c power
  have parsed := (testList_iff_derives (c := c) (p := kinds.map (⟨·, .start, 1⟩)) rfl rfl
    (Nat.le_refl (depthFor 8))).1
  exact ⟨rfl, rfl, (parsed _).1 ⟨_, _, rfl, rfl, rfl⟩⟩

end Parser

end Footprint
