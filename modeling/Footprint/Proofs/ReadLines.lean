import Footprint.Parser.Simple
import Footprint.Proofs.GrammarSoundness
import Footprint.Proofs.TokenLines
import Footprint.Syntax.Node

set_option autoImplicit false

/-!
The lines of what a parser reads. It begins at or after the line at hand and ends at the line on
which the last token that was passed ends, if any token was passed that is no layout.
-/

namespace Footprint

open Token

/-! ### The positions in a tree -/

namespace Node

/-- Where a node stands, if it has a position. -/
def pos? : Node → Option Position
  | stmt s => some s.pos
  | expr e => some e.pos
  | handler h => some h.pos
  | param p => some p.pos
  | imported a => some a.pos
  | script _ | withItem _ => none

/-- The node and all that is below it stand between two lines. -/
def Between (first last : Nat) (n : Node) : Prop :=
  ∀ m ∈ n.walk, ∀ p ∈ m.pos?, first ≤ p.line ∧ p.line ≤ last

variable {first first' last last' : Nat} {n : Node}

theorem between_iff : n.Between first last ↔ (∀ p ∈ n.pos?, first ≤ p.line ∧ p.line ≤ last) ∧
    ∀ m ∈ n.children, m.Between first last := by
  unfold Between
  rw [walk_eq]
  simp only [List.forall_mem_cons, List.forall_mem_flatMap]

theorem Between.mono (h : n.Between first last) (before : first' ≤ first) (after : last ≤ last') :
    n.Between first' last' := by
  intro m hm p hp
  obtain ⟨le, le'⟩ := h m hm p hp
  exact ⟨Nat.le_trans before le, Nat.le_trans le' after⟩

theorem between_imported {a : Import} (before : first ≤ a.pos.line) (after : a.pos.line ≤ last) :
    (imported a).Between first last := by
  refine between_iff.2 ⟨fun p hp => ?_, fun _ hm => absurd hm List.not_mem_nil⟩
  cases hp
  exact ⟨before, after⟩

section

variable {es : List Expr} {o : Option Expr}

theorem between_exprs (h : ∀ e ∈ es, (expr e).Between first last) :
    ∀ m ∈ es.map expr, m.Between first last := List.forall_mem_map.2 h

theorem between_option (h : ∀ e ∈ o, (expr e).Between first last) :
    ∀ m ∈ o.toList.map expr, m.Between first last :=
  between_exprs fun e he => h e (Option.mem_toList.1 he)

end

end Node

theorem Stmt.between_of_parts {s : Stmt} {first last : Nat} {p : Position} (same : s.pos = p)
    (before : first ≤ p.line) (after : p.line ≤ last)
    (parts : ∀ m ∈ s.parts, m.Between first last) : (Node.stmt s).Between first last := by
  refine Node.between_iff.2 ⟨fun q hq => ?_, parts⟩
  cases hq
  rw [same]
  exact ⟨before, after⟩

/-! ### Cursors -/

namespace Parser

/-- The tokens ahead are in order, and what has been passed ends before them. -/
structure Cursor.Ordered (lines : Nat) (c : Cursor) : Prop where
  tokens : InOrder lines 1 c.ahead
  before : c.lastLine ≤ c.front.pos.line
  within : c.lastLine ≤ max 1 lines

theorem Cursor.Ordered.next {lines : Nat} {c : Cursor} (h : c.Ordered lines) :
    c.next.Ordered lines ∧ c.front.pos.line ≤ c.next.front.pos.line ∧
      c.lastLine ≤ c.next.lastLine ∧
      (c.front.kind.isLayout = false → c.front.pos.line ≤ c.next.lastLine) := by
  obtain ⟨front, rest, lastLine⟩ := c
  obtain ⟨tokens, before, within⟩ := h
  by_cases ended : front.kind = .mark .endOfFile
  · -- the end mark is not passed
    have still : (⟨front, rest, lastLine⟩ : Cursor).next = ⟨front, rest, lastLine⟩ := by
      unfold Cursor.next
      dsimp only
      split
      · rfl
      · rw [if_pos (Kind.isMark_iff.2 ended)]
    rw [still]
    refine ⟨⟨tokens, before, within⟩, Nat.le_refl _, Nat.le_refl _, fun other => ?_⟩
    dsimp only at other
    rw [ended] at other
    cases other
  · cases rest with
    | nil =>
      obtain ⟨passed, final, split, final_ended⟩ := (tokens.tail ended).ended
      exact absurd split (by simp)
    | cons t rest =>
      have stands : front.Stands lines := tokens.stands front List.mem_cons_self
      have later : front.last ≤ t.pos.line :=
        (List.pairwise_cons.1 tokens.ascending).1 t List.mem_cons_self
      have first_le := stands.first_le
      have passed : (⟨front, t :: rest, lastLine⟩ : Cursor).next =
          ⟨t, rest, if front.kind.isLayout then lastLine else front.endLine⟩ :=
        if_neg fun last => ended (Kind.isMark_iff.1 last)
      rw [passed]
      dsimp only at before within ⊢
      cases layout : front.kind.isLayout with
      | true =>
        refine ⟨⟨tokens.tail ended, ?_, within⟩, by omega, Nat.le_refl _, Bool.noConfusion⟩
        exact Nat.le_trans before (Nat.le_trans first_le later)
      | false =>
        have last : front.last = front.endLine := by rw [last, layout, if_neg Bool.false_ne_true]
        have last_le := stands.last_le layout
        rw [last] at later first_le last_le
        have within' : front.endLine ≤ max 1 lines :=
          Nat.le_trans last_le (Nat.le_max_right 1 lines)
        rw [if_neg Bool.false_ne_true]
        exact ⟨⟨tokens.tail ended, later, within'⟩, by omega, by omega, fun _ => first_le⟩

/-- If something is passed that is no layout, what has been passed ends on the line or later. -/
theorem Cursor.Ordered.passes {lines first : Nat} {c : Cursor} (h : c.Ordered lines)
    (hfirst : first ≤ c.front.pos.line) :
    c.next.Ordered lines ∧ first ≤ c.next.front.pos.line ∧ c.lastLine ≤ c.next.lastLine ∧
      ∀ last, c.next.lastLine ≤ last → c.front.kind.isLayout = false → first ≤ last := by
  obtain ⟨next, later, le, passed⟩ := h.next
  refine ⟨next, Nat.le_trans hfirst later, le, fun last hlast other => ?_⟩
  exact Nat.le_trans hfirst (Nat.le_trans (passed other) hlast)

/-- Whatever token is ahead. -/
abbrev AnyKind (_ : Kind) : Prop := True

/-- From a line on and before a token at hand, the parser reads tokens in order; what it gives is in
a relation with the last line of what has been passed, and with all later lines. -/
def Places {α : Type} (first : Nat) (ahead : Kind → Prop) (x : Parse α) (Q : Nat → α → Prop) :
    Prop :=
  ∀ ⦃lines : Nat⦄ ⦃c c' : Cursor⦄ ⦃a : α⦄, c.Ordered lines → first ≤ c.front.pos.line →
    ahead c.front.kind → x c = .ok (a, c') →
    c'.Ordered lines ∧ first ≤ c'.front.pos.line ∧ c.lastLine ≤ c'.lastLine ∧
      ∀ last, c'.lastLine ≤ last → Q last a

/-- Of what the parser gives nothing needs to be known. -/
abbrev Moves {α : Type} (first : Nat) (ahead : Kind → Prop) (x : Parse α) : Prop :=
  Places first ahead x fun _ _ => True

namespace Places

variable {α β : Type} {first : Nat} {K : Kind → Prop} {Q : Nat → α → Prop}

theorem imp {Q' : Nat → α → Prop} {x : Parse α} (h : Places first K x Q)
    (weaker : ∀ last a, Q last a → Q' last a) : Places first K x Q' := by
  intro lines c c' a hc hfirst hk read
  obtain ⟨hc', hfirst', le, hQ⟩ := h hc hfirst hk read
  exact ⟨hc', hfirst', le, fun last hlast => weaker last a (hQ last hlast)⟩

theorem anyhow {x : Parse α} (h : Places first AnyKind x Q) : Places first K x Q :=
  fun _ _ _ _ hc hfirst _ read => h hc hfirst trivial read

theorem fail {f : Fault} {p : Position} : Places first K (fail f p) Q := by
  intro lines c c' a _ _ _ read
  cases read

theorem failHere {f : Fault} : Places first K (failHere f) Q := by
  intro lines c c' a _ _ _ read
  cases read

theorem failFound {f : Kind → Fault} : Places first K (failFound f) Q := by
  intro lines c c' a _ _ _ read
  cases read

theorem pure {a : α} (h : ∀ last, Q last a) : Places first K (pure a) Q := by
  intro lines c c' b hc hfirst _ read
  cases read
  exact ⟨hc, hfirst, Nat.le_refl _, fun last _ => h last⟩

theorem bind {P : Nat → β → Prop} {x : Parse β} {f : β → Parse α} (hx : Places first K x P)
    (hf : ∀ b, Places first AnyKind (f b) fun last a => P last b → Q last a) :
    Places first K (x >>= f) Q := by
  intro lines c c' a hc hfirst hk read
  obtain ⟨r, hr, read⟩ := ok_of_bind read
  obtain ⟨between, hbetween, le, hP⟩ := hx hc hfirst hk hr
  obtain ⟨hc', hfirst', le', hQ⟩ := hf r.1 between hbetween trivial read
  refine ⟨hc', hfirst', Nat.le_trans le le', fun last hlast => ?_⟩
  exact hQ last hlast (hP last (Nat.le_trans le' hlast))

theorem skip {x : Parse β} {f : β → Parse α} (hx : Moves first K x)
    (hf : ∀ b, Places first AnyKind (f b) Q) : Places first K (x >>= f) Q :=
  bind hx fun b => (hf b).imp fun _ _ h _ => h

/-- A parser that only looks ahead. -/
theorem look {x : Parse α} (h : ∀ c, ∃ a, x c = .ok (a, c)) : Moves first K x := by
  intro lines c c' b hc hfirst _ read
  obtain ⟨a, looked⟩ := h c
  cases looked.symm.trans read
  exact ⟨hc, hfirst, Nat.le_refl _, fun _ _ => trivial⟩

theorem isAt {m : Mark} : Moves first K (isAt m) := look fun _ => ⟨_, rfl⟩

theorem isAtStatementEnd : Moves first K isAtStatementEnd := look fun _ => ⟨_, rfl⟩

theorem isAtExpression : Moves first K isAtExpression := look fun _ => ⟨_, rfl⟩

theorem isAtKeywordArgument : Moves first K isAtKeywordArgument :=
  look fun c => (isAtKeywordArgument_apply c).elim (fun h => ⟨true, h.1⟩) fun h => ⟨false, h⟩

theorem peekSecond : Moves first K peekSecond := look fun _ => ⟨_, rfl⟩

theorem peek {f : Kind → Parse α} (hf : ∀ k, K k → Places first (· = k) (f k) Q) :
    Places first K (peek >>= f) Q :=
  fun _ c _ _ hc hfirst hk read => hf c.front.kind hk hc hfirst rfl read

/-- What is read from here on lies after the line here. -/
theorem here {f : Position → Parse α} (hf : ∀ p, first ≤ p.line → Places p.line K (f p) Q) :
    Places first K (here >>= f) Q := by
  intro lines c c' a hc hfirst hk read
  obtain ⟨hc', hfirst', le, hQ⟩ := hf c.front.pos hfirst hc (Nat.le_refl _) hk read
  exact ⟨hc', Nat.le_trans hfirst hfirst', le, hQ⟩

theorem advance : Places first K advance fun last _ =>
    (∀ k, K k → k.isLayout = false) → first ≤ last := by
  intro lines c c' a hc hfirst hk read
  cases read
  obtain ⟨next, hnext, le, passed⟩ := hc.passes hfirst
  exact ⟨next, hnext, le, fun last hlast other => passed last hlast (other _ hk)⟩

theorem accept {m : Mark} : Places first K (accept m) fun last found =>
    m.isLayout = false → found = true → first ≤ last := by
  intro lines c c' a hc hfirst hk read
  unfold Parser.accept at read
  split at read
  · next ahead =>
    cases read
    obtain ⟨next, hnext, le, passed⟩ := hc.passes hfirst
    rw [Kind.isMark_iff.1 ahead] at passed
    exact ⟨next, hnext, le, fun last hlast other _ => passed last hlast other⟩
  · cases read
    exact ⟨hc, hfirst, Nat.le_refl _, fun _ _ _ found => absurd found Bool.false_ne_true⟩

theorem moves {x : Parse α} (h : Places first K x Q) : Moves first K x :=
  h.imp fun _ _ _ => trivial

theorem moves_accept {m : Mark} : Moves first K (Parser.accept m) := accept.moves

theorem expect {m : Mark} {place : Place} : Places first K (expect m place) fun last _ =>
    m.isLayout = false → first ≤ last := by
  intro lines c c' a hc hfirst hk read
  unfold Parser.expect at read
  split at read
  · next ahead =>
    cases read
    obtain ⟨next, hnext, le, passed⟩ := hc.passes hfirst
    rw [Kind.isMark_iff.1 ahead] at passed
    exact ⟨next, hnext, le, passed⟩
  · cases read

theorem moves_expect {m : Mark} {place : Place} : Moves first K (Parser.expect m place) :=
  expect.moves

theorem identifier : Places first K identifier fun last s => s ≠ topName ∧ first ≤ last := by
  intro lines c c' a hc hfirst hk read
  unfold Parser.identifier at read
  split at read
  · next s named =>
    cases read
    obtain ⟨next, hnext, le, passed⟩ := hc.passes hfirst
    rw [named] at passed
    refine ⟨next, hnext, le, fun last hlast => ⟨?_, passed last hlast rfl⟩⟩
    rintro rfl
    exact (hc.tokens.stands c.front List.mem_cons_self).unlike_top named
  · cases read

theorem moves_identifier : Moves first K Parser.identifier := identifier.moves

theorem following {m : Mark} {x : Parse α} (hx : Places first AnyKind x Q) :
    Places first K (following m x) fun last o => ∀ a ∈ o, Q last a := by
  unfold Parser.following
  refine .skip moves_accept fun found => ?_
  split
  · refine .bind hx fun a => .pure fun last ha b hb => ?_
    cases hb
    exact ha
  · exact .pure fun _ _ h => absurd h (Option.not_mem_none _)

/-- What goes on after a separator, if one is ahead. -/
theorem separated {γ : Type} {m : Mark} {x : Parse β} {more : Parse γ} {f : β → γ → α} {none : α}
    (hx : Moves first AnyKind x) (hmore : Moves first AnyKind more) :
    Moves first K (do
      if ← Parser.accept m then
        let b ← x
        return f b (← more)
      else return none) := by
  refine .skip .moves_accept fun found => ?_
  split
  · exact .skip hx fun b => .skip hmore fun c => .pure fun _ => trivial
  · exact .pure fun _ => trivial

/-- A list that goes on after a separator, if one is ahead. -/
theorem listed {m : Mark} {x : Parse α} {more : Parse (List α)} (hx : Places first AnyKind x Q)
    (hmore : Places first AnyKind more fun last as => ∀ a ∈ as, Q last a) :
    Places first K (do
      if ← Parser.accept m then
        let a ← x
        return a :: (← more)
      else return []) fun last as => ∀ a ∈ as, Q last a := by
  refine .skip .moves_accept fun found => ?_
  split
  · refine .bind hx fun a => .bind hmore fun as => .pure fun _ has ha => ?_
    exact List.forall_mem_cons.2 ⟨ha, has⟩
  · exact .pure fun _ _ h => absurd h List.not_mem_nil

end Places

/-! ### Expressions -/

/-- The expression stands between two lines, with all that is in it. -/
abbrev Between (first last : Nat) (e : Expr) : Prop := (Node.expr e).Between first last

abbrev AllBetween (first last : Nat) (es : List Expr) : Prop := ∀ e ∈ es, Between first last e

namespace Between

variable {first first' last : Nat} {e e' : Expr} {p : Position}

theorem pos (h : Between first last e) : first ≤ e.pos.line ∧ e.pos.line ≤ last :=
  (Node.between_iff.1 h).1 e.pos rfl

/-- An expression with the position at which it has been read. -/
theorem of_here (same : e.pos = p) (before : first ≤ p.line) (passed : p.line ≤ last)
    (parts : AllBetween first last e.parts) : Between first last e := by
  refine Node.between_iff.2 ⟨fun q hq => ?_, Node.between_exprs parts⟩
  cases hq
  rw [same]
  exact ⟨before, passed⟩

/-- An expression that begins with another one. -/
theorem of_pos (h : Between first last e) (same : e'.pos = e.pos)
    (parts : AllBetween first last e'.parts) : Between first last e' :=
  of_here same h.pos.1 h.pos.2 parts

theorem widen (h : Between first last e) (le : first' ≤ first) : Between first' last e :=
  h.mono le (Nat.le_refl last)

end Between

theorem AllBetween.none {first last : Nat} : AllBetween first last [] :=
  fun _ h => absurd h List.not_mem_nil

theorem AllBetween.cons {first last : Nat} {e : Expr} {es : List Expr} (h : Between first last e)
    (hs : AllBetween first last es) : AllBetween first last (e :: es) :=
  List.forall_mem_cons.2 ⟨h, hs⟩

theorem AllBetween.widen {first first' last : Nat} {es : List Expr} (h : AllBetween first last es)
    (le : first' ≤ first) : AllBetween first' last es := fun e he => (h e he).widen le

/-- The parsers of expressions, with their depth, give them positions between the line at which they
begin and the last one that they pass. -/
structure AllPlace (n : Nat) : Prop where
  testList (first : Nat) : Places first AnyKind (testList n) (Between first)
  moreTests (first : Nat) : Places first AnyKind (moreTests n) (AllBetween first)
  test (first : Nat) : Places first AnyKind (test n) (Between first)
  orTest (first : Nat) : Places first AnyKind (orTest n) (Between first)
  moreOr (first : Nat) : Places first AnyKind (moreOr n) (AllBetween first)
  andTest (first : Nat) : Places first AnyKind (andTest n) (Between first)
  moreAnd (first : Nat) : Places first AnyKind (moreAnd n) (AllBetween first)
  notTest (first : Nat) : Places first AnyKind (notTest n) (Between first)
  comparison (first : Nat) : Places first AnyKind (comparison n) (Between first)
  moreLinks (first : Nat) : Places first AnyKind (moreLinks n) fun last links =>
    AllBetween first last (links.map Prod.snd)
  arith (first : Nat) : Places first AnyKind (arith n) (Between first)
  moreTerms (first : Nat) (left : Expr) : Places first AnyKind (moreTerms n left) fun last e =>
    Between first last left → Between first last e
  term (first : Nat) : Places first AnyKind (term n) (Between first)
  moreFactors (first : Nat) (left : Expr) : Places first AnyKind (moreFactors n left) fun last e =>
    Between first last left → Between first last e
  factor (first : Nat) : Places first AnyKind (factor n) (Between first)
  power (first : Nat) : Places first AnyKind (power n) (Between first)
  primary (first : Nat) : Places first AnyKind (primary n) (Between first)
  trailers (first : Nat) (e : Expr) : Places first AnyKind (trailers n e) fun last e' =>
    Between first last e → Between first last e'
  arguments (first : Nat) : Places first AnyKind (arguments n) (AllBetween first)
  testsUntil (first : Nat) (close : Symbol) :
    Places first AnyKind (testsUntil close n) (AllBetween first)
  atom (first : Nat) : Places first AnyKind (atom n) (Between first)

theorem moves_adjacentStrings (n first : Nat) : Moves first AnyKind (adjacentStrings n) := by
  induction n with
  | zero => exact .failHere
  | succ n ih =>
    unfold adjacentStrings
    refine .peek fun k _ => ?_
    split
    · exact .bind .advance fun _ => .skip ih fun s => .pure fun _ _ => trivial
    · exact .pure fun _ => trivial

theorem places_adjacentStrings (n first : Nat) (s : String) :
    Places first (· = .str s) (adjacentStrings n) fun last _ => first ≤ last := by
  cases n with
  | zero => exact .failHere
  | succ n =>
    unfold adjacentStrings
    refine .peek fun k hk => ?_
    subst hk
    refine .bind .advance fun _ => .skip (moves_adjacentStrings n first) fun _ => .pure ?_
    intro last passed
    exact passed fun k hk => hk ▸ rfl

theorem moves_compareOp? (first : Nat) : Moves first AnyKind compareOp? := by
  have one {op : CompareOp} {K : Kind → Prop} :
      Moves first K (do advance; return some op) :=
    .bind .advance fun _ => .pure fun _ _ => trivial
  unfold compareOp?
  refine .peek fun k _ => ?_
  split
  case h_1 | h_2 | h_3 | h_4 | h_5 | h_6 | h_7 => exact one
  case h_8 =>
    refine .skip .peekSecond fun k' => ?_
    split
    · exact .bind .advance fun _ => .bind .advance fun _ => .pure fun _ _ _ => trivial
    · exact .pure fun _ => trivial
  case h_9 => exact .bind .advance fun _ => .skip .moves_accept fun _ => .pure fun _ _ => trivial
  case h_10 => exact .pure fun _ => trivial

/-- Expressions of which the last may have a separator after it. -/
theorem places_ended {n first : Nat} {m : Mark} {more : Parse (List Expr)} (all : AllPlace n)
    (hmore : Places first AnyKind more (AllBetween first)) :
    Places first AnyKind (do
      let e ← test n
      if ← accept m then return e :: (← more) else return [e]) (AllBetween first) := by
  refine .bind (all.test first) fun e => .skip .moves_accept fun comma => ?_
  split
  · exact .bind hmore fun es => .pure fun _ hes he => .cons he hes
  · exact .pure fun _ he => .cons he .none

namespace AllPlace

variable {n : Nat} (ih : AllPlace n) (first : Nat)

include ih

theorem next_testList : Places first AnyKind (Parser.testList (n + 1)) (Between first) := by
  unfold Parser.testList
  refine .bind (ih.test first) fun e => .skip .isAt fun comma => ?_
  split
  · exact .bind (ih.moreTests first) fun es => .pure fun _ hes he => he.of_pos rfl (.cons he hes)
  · exact .pure fun _ he => he

theorem next_moreTests :
    Places first AnyKind (Parser.moreTests (n + 1)) (AllBetween first) := by
  unfold Parser.moreTests
  refine .skip .moves_accept fun comma => ?_
  split
  · refine .skip .isAtExpression fun isTest => ?_
    split
    · refine .bind (ih.test first) fun e => .bind (ih.moreTests first) fun es => ?_
      exact .pure fun _ hes he => .cons he hes
    · exact .pure fun _ => .none
  · exact .pure fun _ => .none

theorem next_test : Places first AnyKind (Parser.test (n + 1)) (Between first) := by
  unfold Parser.test
  refine .bind (ih.orTest first) fun body => .skip .moves_accept fun isChoice => ?_
  split
  · refine .bind (ih.orTest first) fun condition => .skip .moves_expect fun _ => ?_
    refine .bind (ih.test first) fun orelse => .pure fun _ horelse hcondition hbody => ?_
    exact hbody.of_pos rfl (.cons hcondition (.cons hbody (.cons horelse .none)))
  · exact .pure fun _ hbody => hbody

theorem next_orTest : Places first AnyKind (Parser.orTest (n + 1)) (Between first) := by
  unfold Parser.orTest
  refine .bind (ih.andTest first) fun e => .bind (ih.moreOr first) fun others => ?_
  split
  · exact .pure fun _ _ he => he
  · exact .pure fun _ hothers he => he.of_pos rfl (.cons he hothers)

theorem next_moreOr : Places first AnyKind (Parser.moreOr (n + 1)) (AllBetween first) := by
  unfold Parser.moreOr
  exact .listed (ih.andTest first) (ih.moreOr first)

theorem next_andTest : Places first AnyKind (Parser.andTest (n + 1)) (Between first) := by
  unfold Parser.andTest
  refine .bind (ih.notTest first) fun e => .bind (ih.moreAnd first) fun others => ?_
  split
  · exact .pure fun _ _ he => he
  · exact .pure fun _ hothers he => he.of_pos rfl (.cons he hothers)

theorem next_moreAnd : Places first AnyKind (Parser.moreAnd (n + 1)) (AllBetween first) := by
  unfold Parser.moreAnd
  exact .listed (ih.notTest first) (ih.moreAnd first)

theorem next_notTest : Places first AnyKind (Parser.notTest (n + 1)) (Between first) := by
  unfold Parser.notTest
  refine .here fun p before => .bind .accept fun isNot => ?_
  split
  · next found =>
    refine .bind (ih.notTest p.line) fun e => .pure fun _ he passed => ?_
    exact .of_here rfl before (passed rfl found) (.cons (he.widen before) .none)
  · exact (ih.comparison p.line).imp fun _ _ he _ => he.widen before

theorem next_comparison : Places first AnyKind (Parser.comparison (n + 1)) (Between first) := by
  unfold Parser.comparison
  refine .bind (ih.arith first) fun left => .bind (ih.moreLinks first) fun links => ?_
  split
  · exact .pure fun _ _ he => he
  · exact .pure fun _ hlinks he => he.of_pos rfl (.cons he hlinks)

theorem next_moreLinks : Places first AnyKind (Parser.moreLinks (n + 1)) fun last links =>
    AllBetween first last (links.map Prod.snd) := by
  unfold Parser.moreLinks
  refine .skip (moves_compareOp? first) fun found => ?_
  split
  · refine .bind (ih.arith first) fun e => .bind (ih.moreLinks first) fun links => ?_
    exact .pure fun _ hlinks he => .cons he hlinks
  · exact .pure fun _ => .none

theorem next_arith : Places first AnyKind (Parser.arith (n + 1)) (Between first) := by
  unfold Parser.arith
  exact .bind (ih.term first) fun left => ih.moreTerms first left

theorem next_moreTerms (left : Expr) :
    Places first AnyKind (Parser.moreTerms (n + 1) left) fun last e =>
      Between first last left → Between first last e := by
  unfold Parser.moreTerms
  refine .peek fun k _ => ?_
  split
  · refine .bind .advance fun _ => .bind (ih.term first) fun right => ?_
    refine (ih.moreTerms first _).imp fun _ _ grows hright _ hleft => grows ?_
    exact hleft.of_pos rfl (.cons hleft (.cons hright .none))
  · exact .pure fun _ hleft => hleft

theorem next_term : Places first AnyKind (Parser.term (n + 1)) (Between first) := by
  unfold Parser.term
  exact .bind (ih.factor first) fun left => ih.moreFactors first left

theorem next_moreFactors (left : Expr) :
    Places first AnyKind (Parser.moreFactors (n + 1) left) fun last e =>
      Between first last left → Between first last e := by
  unfold Parser.moreFactors
  refine .peek fun k _ => ?_
  split
  · refine .bind .advance fun _ => .bind (ih.factor first) fun right => ?_
    refine (ih.moreFactors first _).imp fun _ _ grows hright _ hleft => grows ?_
    exact hleft.of_pos rfl (.cons hleft (.cons hright .none))
  · exact .pure fun _ hleft => hleft

theorem next_factor : Places first AnyKind (Parser.factor (n + 1)) (Between first) := by
  unfold Parser.factor
  refine .here fun p before => .peek fun k _ => ?_
  split
  · next op hop =>
    obtain ⟨s, rfl, -⟩ := signOp?_eq_some hop
    refine .bind .advance fun _ => .bind (ih.factor p.line) fun e => .pure fun _ he passed => ?_
    exact .of_here rfl before (passed fun _ same => same ▸ rfl) (.cons (he.widen before) .none)
  · exact (ih.power p.line).anyhow.imp fun _ _ he => he.widen before

theorem next_power : Places first AnyKind (Parser.power (n + 1)) (Between first) := by
  unfold Parser.power
  refine .bind (ih.primary first) fun base => .skip .moves_accept fun isRaised => ?_
  split
  · refine .bind (ih.factor first) fun exponent => .pure fun _ hexponent hbase => ?_
    exact hbase.of_pos rfl (.cons hbase (.cons hexponent .none))
  · exact .pure fun _ hbase => hbase

theorem next_primary : Places first AnyKind (Parser.primary (n + 1)) (Between first) := by
  unfold Parser.primary
  exact .bind (ih.atom first) fun e => ih.trailers first e

theorem next_trailers (e : Expr) :
    Places first AnyKind (Parser.trailers (n + 1) e) fun last e' =>
      Between first last e → Between first last e' := by
  unfold Parser.trailers
  refine .skip .moves_accept fun isCall => ?_
  split
  · refine .bind (ih.arguments first) fun args => .skip .moves_expect fun _ => ?_
    refine (ih.trailers first _).imp fun _ _ grows hargs he => grows ?_
    exact he.of_pos rfl (.cons he hargs)
  · refine .skip .moves_accept fun isSubscript => ?_
    split
    · refine .bind (ih.testList first) fun index => .skip .moves_expect fun _ => ?_
      refine (ih.trailers first _).imp fun _ _ grows hindex he => grows ?_
      exact he.of_pos rfl (.cons he (.cons hindex .none))
    · refine .skip .moves_accept fun isMember => ?_
      split
      · refine .skip .moves_identifier fun attr => (ih.trailers first _).imp fun _ _ grows he => ?_
        exact grows (he.of_pos rfl (.cons he .none))
      · exact .pure fun _ he => he

theorem next_arguments : Places first AnyKind (Parser.arguments (n + 1)) (AllBetween first) := by
  unfold Parser.arguments
  refine .skip .isAt fun ended => ?_
  split
  · exact .pure fun _ => .none
  · refine .skip .isAtKeywordArgument fun isNamed => ?_
    split
    · exact .failHere
    · exact places_ended ih (ih.arguments first)

theorem next_testsUntil (close : Symbol) :
    Places first AnyKind (Parser.testsUntil close (n + 1)) (AllBetween first) := by
  unfold Parser.testsUntil
  refine .skip .isAt fun ended => ?_
  split
  · exact .pure fun _ => .none
  · exact places_ended ih (ih.testsUntil first close)

theorem next_atom : Places first AnyKind (Parser.atom (n + 1)) (Between first) := by
  unfold Parser.atom
  refine .here fun p before => .peek fun k _ => ?_
  have passing {k : Kind} {x : Parse Expr} (other : k.isLayout = false)
      (hx : Places p.line AnyKind x fun last e =>
        e.pos = p ∧ AllBetween p.line last e.parts ∨ Between p.line last e) :
      Places p.line (· = k) (do advance; x) (Between first) := by
    refine .bind .advance fun _ => hx.imp fun last e he passed => ?_
    rcases he with ⟨same, parts⟩ | between
    · exact .of_here same before (passed fun _ same => same ▸ other) (parts.widen before)
    · exact between.widen before
  split
  case h_1 | h_2 | h_3 | h_4 | h_5 | h_6 => exact passing rfl (.pure fun _ => .inl ⟨rfl, .none⟩)
  case h_7 s _ =>
    refine .bind (places_adjacentStrings n p.line s) fun text => .pure fun _ passed => ?_
    exact .of_here rfl before passed .none
  case h_8 =>
    refine passing rfl (.skip .moves_accept fun isEmpty => ?_)
    split
    · exact .pure fun _ => .inl ⟨rfl, .none⟩
    · refine .bind (ih.test p.line) fun e => .skip .moves_accept fun isTuple => ?_
      split
      · refine .bind (ih.testsUntil p.line _) fun es => .skip .moves_expect fun _ => ?_
        exact .pure fun _ hes he => .inl ⟨rfl, .cons he hes⟩
      · exact .skip .moves_expect fun _ => .pure fun _ he => .inr he
  case h_9 =>
    refine passing rfl (.bind (ih.testsUntil p.line _) fun items => .skip .moves_expect fun _ => ?_)
    exact .pure fun _ hitems => .inl ⟨rfl, hitems⟩
  case h_10 => exact .failFound

end AllPlace

theorem allPlace (n : Nat) : AllPlace n := by
  induction n with
  | zero =>
    constructor <;> intros <;> exact .failHere
  | succ n ih =>
    exact ⟨ih.next_testList, ih.next_moreTests, ih.next_test, ih.next_orTest, ih.next_moreOr,
      ih.next_andTest, ih.next_moreAnd, ih.next_notTest, ih.next_comparison, ih.next_moreLinks,
      ih.next_arith, ih.next_moreTerms, ih.next_term, ih.next_moreFactors, ih.next_factor,
      ih.next_power, ih.next_primary, ih.next_trailers, ih.next_arguments, ih.next_testsUntil,
      ih.next_atom⟩

/-! ### Simple statements -/

section

variable (n first : Nat)

theorem moves_checkTargets (f : Fault) (es : List Expr) :
    Moves first AnyKind (checkTargets f es) := by
  induction es with
  | nil => exact .pure fun _ => trivial
  | cons e es ih =>
    unfold checkTargets
    split
    · exact ih
    · exact .fail

theorem moves_checkSingle (f : Fault) (e : Expr) : Moves first AnyKind (checkSingle f e) := by
  unfold checkSingle
  split
  · exact .pure fun _ => trivial
  · exact .fail

theorem moves_moreNames : Moves first AnyKind (moreNames n) := by
  induction n with
  | zero => exact .failHere
  | succ n ih => exact .separated .moves_identifier ih

theorem moves_nameList : Moves first AnyKind (nameList n) :=
  .skip .moves_identifier fun _ => .skip (moves_moreNames n first) fun _ => .pure fun _ => trivial

theorem moves_moreComponents : Moves first AnyKind (moreComponents n) := by
  induction n with
  | zero => exact .failHere
  | succ n ih => exact .separated .moves_identifier ih

/-- The parser of a name passes a token that is no layout. -/
abbrev Names (name : Parse String) : Prop :=
  ∀ first, Places first AnyKind name fun last _ => first ≤ last

theorem names_identifier : Names identifier := fun _ => Places.identifier.imp fun _ _ h => h.2

theorem names_dottedName : Names (dottedName n) := fun first =>
  .bind Places.identifier fun _ => .skip (moves_moreComponents n first) fun _ =>
    .pure fun _ named => named.2

/-- The imports stand between two lines. -/
abbrev ImportsBetween (first last : Nat) (is : List Import) : Prop :=
  ∀ i ∈ is, (Node.imported i).Between first last

section

variable {name : Parse String} (hname : Names name)

include hname

theorem places_importItem : Places first AnyKind (importItem name) fun last i =>
    (Node.imported i).Between first last :=
  .here fun p before => .bind (hname p.line) fun _ =>
    .skip (Places.following .identifier).moves fun _ => .pure fun _ passed =>
      Node.between_imported before passed

theorem places_moreImports : Places first AnyKind (moreImports name n) (ImportsBetween first) := by
  induction n with
  | zero => exact .failHere
  | succ n ih => exact .listed (places_importItem first hname) ih

theorem places_importList : Places first AnyKind (importList name n) (ImportsBetween first) :=
  .bind (places_importItem first hname) fun _ =>
    .bind (places_moreImports n first hname) fun _ => .pure fun _ his hi =>
      List.forall_mem_cons.2 ⟨hi, his⟩

end

theorem places_enclosedImports :
    Places first AnyKind (enclosedImports n) (ImportsBetween first) := by
  induction n with
  | zero => exact .failHere
  | succ n ih =>
    unfold enclosedImports
    refine .bind (places_importItem first names_identifier) fun item => ?_
    refine .skip .moves_accept fun more => ?_
    split
    · refine .skip .isAt fun ended => ?_
      split
      · exact .pure fun _ hitem => List.forall_mem_singleton.2 hitem
      · refine .bind ih fun items => .pure fun _ hitems hitem => ?_
        exact List.forall_mem_cons.2 ⟨hitem, hitems⟩
    · exact .pure fun _ hitem => List.forall_mem_singleton.2 hitem

theorem moves_leadingDots : Moves first AnyKind (leadingDots n) := by
  induction n with
  | zero => exact .failHere
  | succ n ih =>
    unfold leadingDots
    refine .skip .moves_accept fun dot => ?_
    split
    · exact .skip ih fun dots => .pure fun _ => trivial
    · exact .pure fun _ => trivial

theorem moves_moduleName : Moves first AnyKind (moduleName n) := by
  unfold moduleName
  refine .skip (moves_leadingDots n first) fun dots => .skip .isAt fun ended => ?_
  split
  · exact .pure fun _ => trivial
  · exact .skip (names_dottedName n first).moves fun name => .pure fun _ => trivial

/-- A statement that has been begun at a position stands between its line and the last one. -/
abbrev Begun (p : Position) (last : Nat) (s : Stmt) : Prop :=
  p.line ≤ last → (Node.stmt s).Between p.line last

theorem begun {p : Position} {last : Nat} {s : Stmt} (same : s.pos = p)
    (parts : ∀ m ∈ s.parts, m.Between p.line last) : Begun p last s :=
  fun le => Stmt.between_of_parts same (Nat.le_refl _) le parts

theorem begun_alone {p : Position} {last : Nat} {s : Stmt} (same : s.pos = p)
    (alone : s.parts = []) : Begun p last s :=
  begun same fun _ hm => absurd (alone ▸ hm) List.not_mem_nil

theorem places_importFrom (p : Position) :
    Places p.line AnyKind (importFrom n p) (Begun p) := by
  unfold importFrom
  refine .skip (moves_moduleName n p.line) fun source => .skip .moves_expect fun _ => ?_
  refine .here fun star before => .bind .accept fun isStar => ?_
  split
  · next found =>
    refine .pure fun _ passed => begun rfl (List.forall_mem_singleton.2 ?_)
    exact Node.between_imported before (passed rfl found)
  · refine .imp (Q := Begun p) ?_ fun _ _ h _ => h
    refine .skip .moves_accept fun isOpen => ?_
    split
    · refine .bind (places_enclosedImports n star.line) fun names => .skip .moves_expect fun _ => ?_
      exact .pure fun _ hnames => begun rfl (List.forall_mem_map.2 fun i hi =>
        (hnames i hi).mono before (Nat.le_refl _))
    · refine .bind (places_importList n star.line names_identifier) fun names => ?_
      exact .pure fun _ hnames => begun rfl (List.forall_mem_map.2 fun i hi =>
        (hnames i hi).mono before (Nat.le_refl _))

theorem places_moreDeleted : Places first AnyKind (moreDeleted n) (AllBetween first) := by
  induction n with
  | zero => exact .failHere
  | succ n ih =>
    unfold moreDeleted
    refine .skip .moves_accept fun more => ?_
    split
    · refine .skip .isAtStatementEnd fun ended => ?_
      split
      · exact .pure fun _ => .none
      · refine .bind ((allPlace n).test first) fun e => .bind ih fun es => ?_
        exact .pure fun _ hes he => .cons he hes
    · exact .pure fun _ => .none

theorem places_assigned : Places first AnyKind (assigned n) fun last r =>
    AllBetween first last r.1 ∧ Between first last r.2 := by
  induction n with
  | zero => exact .failHere
  | succ n ih =>
    unfold assigned
    refine .bind ((allPlace n).testList first) fun next => .skip .moves_accept fun more => ?_
    split
    · exact .bind ih fun r => .pure fun _ hr hnext => ⟨.cons hnext hr.1, hr.2⟩
    · exact .pure fun _ hnext => ⟨.none, hnext⟩

theorem places_expressionStatement (p : Position) :
    Places p.line AnyKind (expressionStatement n p) fun last s =>
      (Node.stmt s).Between p.line last := by
  have all := allPlace n
  unfold expressionStatement
  refine .bind (all.testList p.line) fun e => .skip .moves_accept fun isAssignment => ?_
  refine .imp (Q := fun last s => Between p.line last e → Begun p last s) ?_ fun last s h he =>
    h he (Nat.le_trans he.pos.1 he.pos.2)
  split
  · refine .bind (places_assigned n p.line) fun r => ?_
    refine .skip (moves_checkTargets p.line _ _) fun _ => ?_
    refine .pure fun last hr he => begun rfl ?_
    simpa [Stmt.parts, or_imp, forall_and] using ⟨he, hr⟩
  · refine .peek fun k _ => ?_
    split
    · refine .skip (.moves .advance) fun _ => .skip (moves_checkSingle p.line _ _) fun _ => ?_
      refine .bind (all.testList p.line) fun value => .pure fun last hvalue he => begun rfl ?_
      simpa [Stmt.parts] using ⟨he, hvalue⟩
    · refine .anyhow (.skip .moves_accept fun isAnnotation => ?_)
      split
      · refine .skip (moves_checkSingle p.line _ _) fun _ => .bind (all.test p.line) fun a => ?_
        refine .bind (.following (all.testList p.line)) fun value => ?_
        refine .pure fun last hvalue ha he => begun rfl ?_
        simpa [Stmt.parts, or_imp, forall_and] using ⟨he, ha, hvalue⟩
      · exact .pure fun last he => begun rfl (List.forall_mem_singleton.2 he)

theorem places_smallStatement :
    Places first AnyKind (smallStatement n) fun last s => (Node.stmt s).Between first last := by
  have all := allPlace n
  unfold smallStatement
  refine .here fun p before => .peek fun k _ => ?_
  refine .imp (Q := fun last s => (Node.stmt s).Between p.line last) ?_ fun last s h =>
    h.mono before (Nat.le_refl _)
  have passing {k : Kind} {x : Parse Stmt} (other : k.isLayout = false)
      (hx : Places p.line AnyKind x (Begun p)) :
      Places p.line (· = k) (do advance; x) fun last s => (Node.stmt s).Between p.line last :=
    .bind .advance fun _ => hx.imp fun last s made passed =>
      made (passed fun _ same => same ▸ other)
  split
  case h_1 | h_2 | h_3 => exact passing rfl (.pure fun _ => begun_alone rfl rfl)
  case h_4 =>
    refine passing rfl (.skip .isAtStatementEnd fun ended => ?_)
    split
    · exact .pure fun _ => begun_alone rfl rfl
    · refine .bind (all.testList p.line) fun value => .pure fun _ hvalue => begun rfl ?_
      exact List.forall_mem_singleton.2 hvalue
  case h_5 =>
    refine passing rfl (.bind (all.test p.line) fun e => ?_)
    refine .bind (places_moreDeleted n p.line) fun es => ?_
    refine .skip (moves_checkTargets p.line _ _) fun _ => .pure fun _ hes he => begun rfl ?_
    exact Node.between_exprs (AllBetween.cons he hes)
  case h_6 =>
    refine passing rfl (.skip .isAtStatementEnd fun ended => ?_)
    split
    · exact .pure fun _ => begun_alone rfl rfl
    · refine .bind (all.test p.line) fun value => .pure fun _ hvalue => begun rfl ?_
      exact List.forall_mem_singleton.2 hvalue
  case h_7 =>
    refine passing rfl (.bind (all.test p.line) fun condition => ?_)
    refine .bind (.following (all.test p.line)) fun message => ?_
    refine .pure fun _ hmessage hcondition => begun rfl ?_
    exact List.forall_mem_cons.2 ⟨hcondition, Node.between_option hmessage⟩
  case h_8 =>
    refine passing rfl (.bind (places_importList n p.line (names_dottedName n)) fun names => ?_)
    exact .pure fun _ hnames => begun rfl (List.forall_mem_map.2 hnames)
  case h_9 => exact passing rfl (places_importFrom n p)
  case h_10 | h_11 =>
    refine passing rfl (.skip (moves_nameList n p.line) fun names => .pure fun _ => ?_)
    exact begun_alone rfl rfl
  case h_12 => exact (places_expressionStatement n p).anyhow

theorem places_moreSmall :
    Places first AnyKind (moreSmall n) fun last ss =>
      ∀ s ∈ ss, (Node.stmt s).Between first last := by
  induction n with
  | zero => exact .failHere
  | succ n ih =>
    have none : Places first AnyKind (pure []) fun last (ss : List Stmt) =>
        ∀ s ∈ ss, (Node.stmt s).Between first last :=
      .pure fun _ _ h => absurd h List.not_mem_nil
    unfold moreSmall
    refine .skip .moves_accept fun more => ?_
    split
    · refine .skip .isAt fun atNewline => .skip .isAt fun atEnd => ?_
      split
      · exact none
      · refine .bind (places_smallStatement n first) fun s => .bind ih fun ss => .pure ?_
        exact fun _ hss hs => List.forall_mem_cons.2 ⟨hs, hss⟩
    · exact none

end

end Parser

end Footprint
