import Mathlib.Data.List.Chain
import Footprint.Proofs.Gaps
import Footprint.Proofs.ReadLines
import Footprint.Proofs.Shape

set_option autoImplicit false

/-!
Expressions that have been parsed have the form that `Node.Shaped` says. What the parser makes of
tokens rests on what tokens are: those of a text are spelled there, and the first token of an
indented block is one of the block.
-/

namespace Footprint

namespace Token

/-! ### Tokens of a text -/

/-- The token neither ends a block nor the text. -/
def Kind.GoesOn (k : Kind) : Prop := k ≠ .mark .dedent ∧ k ≠ .mark .endOfFile

/-- No block ends where it begins. -/
def Opened (ts : List Token) : Prop :=
  ts.IsChain fun t u => t.kind = .mark .indent → u.kind.GoesOn

section

variable {t : Token} {ls ts : List Token}

theorem Opened.cons (h : Opened ts) (other : t.kind ≠ .mark .indent) : Opened (t :: ts) :=
  List.IsChain.cons h fun _ _ indent => absurd indent other

theorem Opened.append (h : Opened ts) (others : ∀ t ∈ ls, t.kind ≠ .mark .indent) :
    Opened (ls ++ ts) := by
  induction ls with
  | nil => exact h
  | cons t ls ih =>
    have after := ih fun t ht => others t (List.mem_cons_of_mem _ ht)
    exact after.cons (others t List.mem_cons_self)

end

/-- No block ends where it begins in the tokens from a stage on; a line that has a token goes on. -/
def OpenedFrom (s : Stage) (ts : List Token) : Prop :=
  Opened ts ∧ (s.isOpen = true → ∀ t ∈ ts.head?, t.kind.GoesOn)

section

variable {finish : Position} {s s' : Stage} {ts us : List Token}

theorem Stops.opened (h : Stops finish s (.ok ts)) : OpenedFrom s ts := by
  constructor
  · have others : ∀ t ∈ ts, t.kind ≠ .mark .indent := by
      intro t ht
      obtain ⟨m, -, other, rfl⟩ := h.eq_mark_of_mem ht
      exact fun indent => other (Kind.mark.inj indent)
    have none : Opened [] := .nil
    simpa using none.append others
  · intro isOpen
    obtain ⟨-, rfl⟩ := h.eq_of_ok
    rw [isOpen]
    rintro t ⟨⟩
    simp [Kind.GoesOn]

theorem Step.opened (h : Step finish s us s') (others : OpenedFrom s' ts) :
    OpenedFrom s (us ++ ts) := by
  obtain ⟨opened, goesOn⟩ := others
  cases h with
  | blank | comment | join => exact ⟨opened, goesOn⟩
  | begins _ _ indented =>
    refine ⟨?_, nofun⟩
    rcases (indentation_eq_ok indented).2 with ⟨-, -, rfl⟩ | ⟨ended, -, rfl⟩
    · exact List.IsChain.cons opened fun t ht _ => goesOn rfl t ht
    · refine opened.append fun t ht => ?_
      obtain ⟨_, -, rfl⟩ := List.mem_map.1 ht
      simp
  | @ends _ isOpen =>
    cases isOpen with
    | true =>
      refine ⟨opened.cons (by simp), ?_⟩
      rintro - t ⟨⟩
      simp [Kind.GoesOn]
    | false => exact ⟨opened, nofun⟩
  | token _ _ found =>
    have other {m : Mark} (layout : m.isLayout = true) :=
      Kind.ne_mark_of_isLayout (isLayout_read found) layout
    refine ⟨opened.cons (other rfl), ?_⟩
    rintro - t ⟨⟩
    exact ⟨other rfl, other rfl⟩

theorem opened_scan (h : s.scan finish = .ok ts) : OpenedFrom s ts :=
  scan_induction (fun _ _ stops => stops.opened) (fun _ _ _ _ step => step.opened) h

end

end Token

/-! ### Nodes -/

namespace Node

/-- The node is as the parser makes it; a function has the names stored that it binds. -/
structure Made (n : Node) : Prop where
  shaped : n.Shaped
  bound : ∀ head body, n = stmt (.function head body) → head.bound = .ofFunction head.params body

/-- The node and all below it are as the parser makes them. -/
def Formed (n : Node) : Prop := ∀ m ∈ n.walk, m.Made

theorem formed_of_children {n : Node} (own : n.Made) (below : ∀ m ∈ n.children, m.Formed) :
    n.Formed := by
  intro m hm
  rw [walk_eq, List.mem_cons, List.mem_flatMap] at hm
  rcases hm with rfl | ⟨child, hchild, hm⟩
  · exact own
  · exact below child hchild m hm

end Node

open Node

namespace Expr

def Formed (e : Expr) : Prop := (Node.expr e).Formed

variable {e : Expr}

theorem formed_of_parts (own : (Node.expr e).Shaped) (parts : ∀ d ∈ e.parts, d.Formed) :
    e.Formed := by
  apply formed_of_children ⟨own, fun _ _ h => nomatch h⟩
  intro m hm
  obtain ⟨d, hd, rfl⟩ := List.mem_map.1 hm
  exact parts d hd

end Expr

/-- All the expressions have been made. -/
abbrev FormedAll (es : List Expr) : Prop := ∀ e ∈ es, e.Formed

namespace Parser

open Token

/-! ### Readers -/

/-- The tokens ahead are spelled, and no block ends where it begins. -/
structure Cursor.Sound (c : Cursor) : Prop where
  spelled : ∀ t ∈ c.ahead, t.kind.isLayout = false → ∃ cs, t.kind.Spells cs
  opened : Opened c.ahead

theorem Cursor.Sound.next {c : Cursor} (h : c.Sound) :
    c.next.Sound ∧ (c.front.kind = .mark .indent → c.next.front.kind.GoesOn) := by
  obtain ⟨front, rest, lastLine⟩ := c
  obtain ⟨spelled, opened⟩ := h
  have stay : front.kind = .mark .indent → front.kind.GoesOn := by
    intro same
    simp [same, Kind.GoesOn]
  unfold Cursor.next
  cases rest with
  | nil => exact ⟨⟨spelled, opened⟩, stay⟩
  | cons t rest =>
    dsimp only
    split
    · exact ⟨⟨spelled, opened⟩, stay⟩
    · exact ⟨⟨fun u hu => spelled u (List.mem_cons_of_mem _ hu), opened.tail⟩,
        (List.isChain_cons.1 opened).1 t rfl⟩

/-- Parsing begins with tokens of the text. -/
theorem sound_of_tokenize {source : String} {ts : List Token} (h : tokenize source = .ok ts) :
    (Cursor.ofTokens ts).Sound := by
  cases ts with
  | nil => exact ⟨List.forall_mem_singleton.2 nofun, .singleton _⟩
  | cons t ts =>
    refine ⟨spelled_of_tokenize h, ?_⟩
    rw [tokenize_eq] at h
    exact (opened_scan h).1

/-- From tokens of a text the parser makes something that is so, and leaves such tokens. -/
def Forms {α : Type} (ahead : Kind → Prop) (x : Parse α) (Q : α → Prop) : Prop :=
  ∀ ⦃c c' : Cursor⦄ ⦃a : α⦄, c.Sound → ahead c.front.kind → x c = .ok (a, c') → c'.Sound ∧ Q a

/-- Of what the parser makes nothing needs to be known. -/
abbrev Leaves {α : Type} (x : Parse α) : Prop := Forms AnyKind x fun _ => True

namespace Forms

variable {α β : Type} {K : Kind → Prop} {Q : α → Prop}

theorem anyhow {x : Parse α} (h : Forms AnyKind x Q) : Forms K x Q :=
  fun _ _ _ hc _ read => h hc trivial read

theorem imp {P : α → Prop} {x : Parse α} (h : Forms K x P) (weaker : ∀ a, P a → Q a) :
    Forms K x Q := by
  intro c c' a hc hk read
  obtain ⟨hc', ha⟩ := h hc hk read
  exact ⟨hc', weaker a ha⟩

theorem leaves {x : Parse α} (h : Forms AnyKind x Q) : Leaves x := h.imp fun _ _ => trivial

theorem pure {a : α} (h : Q a) : Forms K (pure a) Q := by
  intro c c' b hc _ read
  cases read
  exact ⟨hc, h⟩

theorem fail {f : Fault} {p : Position} : Forms K (fail f p) Q := by
  intro c c' a _ _ read
  cases read

theorem failHere {f : Fault} : Forms K (failHere f) Q := by
  intro c c' a _ _ read
  cases read

theorem failFound {f : Kind → Fault} : Forms K (failFound f) Q := by
  intro c c' a _ _ read
  cases read

theorem bind {P : β → Prop} {x : Parse β} {f : β → Parse α} (hx : Forms K x P)
    (hf : ∀ b, P b → Forms AnyKind (f b) Q) : Forms K (x >>= f) Q := by
  intro c c' a hc hk read
  obtain ⟨r, hr, read⟩ := ok_of_bind read
  obtain ⟨between, hb⟩ := hx hc hk hr
  exact hf r.1 hb between trivial read

theorem skip {x : Parse β} {f : β → Parse α} (hx : Forms K x fun _ => True)
    (hf : ∀ b, Forms AnyKind (f b) Q) : Forms K (x >>= f) Q := hx.bind fun b _ => hf b

/-- A parser that only looks ahead. -/
theorem look {x : Parse α} (h : ∀ c, ∃ a, x c = .ok (a, c)) : Forms K x fun _ => True := by
  intro c c' b hc _ read
  obtain ⟨a, looked⟩ := h c
  cases looked.symm.trans read
  exact ⟨hc, trivial⟩

theorem isAt {m : Mark} : Forms K (isAt m) fun _ => True := look fun _ => ⟨_, rfl⟩

theorem isAtStatementEnd : Forms K isAtStatementEnd fun _ => True := look fun _ => ⟨_, rfl⟩

theorem isAtExpression : Forms K isAtExpression fun _ => True := look fun _ => ⟨_, rfl⟩

theorem isAtKeywordArgument : Forms K isAtKeywordArgument fun _ => True :=
  look fun c => (isAtKeywordArgument_apply c).elim (fun h => ⟨true, h.1⟩) fun h => ⟨false, h⟩

theorem peekSecond : Forms K peekSecond fun _ => True := look fun _ => ⟨_, rfl⟩

theorem here : Forms K here fun _ => True := look fun _ => ⟨_, rfl⟩

theorem lastLine : Forms K lastLine fun _ => True := look fun _ => ⟨_, rfl⟩

theorem peek : Forms K peek fun k => k.isLayout = false → ∃ cs, k.Spells cs := by
  intro c c' k hc _ read
  cases read
  exact ⟨hc, hc.spelled c.front List.mem_cons_self⟩

theorem advance : Forms K advance fun _ => True := by
  intro c c' a hc _ read
  cases read
  exact ⟨hc.next.1, trivial⟩

theorem accept {m : Mark} : Forms K (accept m) fun _ => True := by
  intro c c' a hc _ read
  unfold Parser.accept at read
  split at read
  · cases read
    exact ⟨hc.next.1, trivial⟩
  · cases read
    exact ⟨hc, trivial⟩

theorem expect {m : Mark} {place : Place} : Forms K (expect m place) fun _ => True := by
  intro c c' a hc _ read
  unfold Parser.expect at read
  split at read
  · cases read
    exact ⟨hc.next.1, trivial⟩
  · cases read

theorem identifier : Forms K identifier (isIdentifier · = true) := by
  intro c c' a hc _ read
  unfold Parser.identifier at read
  split at read
  · next s named =>
    cases read
    refine ⟨hc.next.1, ?_⟩
    obtain ⟨cs, spells⟩ := hc.spelled c.front List.mem_cons_self (named ▸ rfl)
    rw [named] at spells
    cases spells with
    | name isName => exact isName
  · cases read

theorem following {m : Mark} {x : Parse α} (hx : Forms AnyKind x Q) :
    Forms K (following m x) fun r => ∀ a ∈ r, Q a := by
  unfold Parser.following
  refine .skip accept fun found => ?_
  split
  · exact .bind hx fun a ha => .pure fun b hb => by cases hb; exact ha
  · exact .pure nofun

/-- What goes on after a separator, if one is ahead. -/
theorem separated {m : Mark} {x : Parse α} {more : Parse (List α)} (hx : Forms AnyKind x Q)
    (hmore : Forms AnyKind more fun as => ∀ a ∈ as, Q a) :
    Forms K (do
      if ← Parser.accept m then
        let a ← x
        return a :: (← more)
      else return []) fun as => ∀ a ∈ as, Q a := by
  refine .skip accept fun found => ?_
  split
  · refine .bind hx fun a ha => .bind hmore fun as has => .pure ?_
    exact List.forall_mem_cons.2 ⟨ha, has⟩
  · exact .pure (List.forall_mem_nil _)

end Forms

/-! ### Expressions -/

/-- The parsers of expressions, with their depth, make them. -/
structure AllForm (n : Nat) : Prop where
  testList : Forms AnyKind (testList n) Expr.Formed
  moreTests : Forms AnyKind (moreTests n) FormedAll
  test : Forms AnyKind (test n) Expr.Formed
  orTest : Forms AnyKind (orTest n) Expr.Formed
  moreOr : Forms AnyKind (moreOr n) FormedAll
  andTest : Forms AnyKind (andTest n) Expr.Formed
  moreAnd : Forms AnyKind (moreAnd n) FormedAll
  notTest : Forms AnyKind (notTest n) Expr.Formed
  comparison : Forms AnyKind (comparison n) Expr.Formed
  moreLinks : Forms AnyKind (moreLinks n) fun links => FormedAll (links.map Prod.snd)
  arith : Forms AnyKind (arith n) Expr.Formed
  moreTerms {left : Expr} (h : left.Formed) : Forms AnyKind (moreTerms n left) Expr.Formed
  term : Forms AnyKind (term n) Expr.Formed
  moreFactors {left : Expr} (h : left.Formed) : Forms AnyKind (moreFactors n left) Expr.Formed
  factor : Forms AnyKind (factor n) Expr.Formed
  power : Forms AnyKind (power n) Expr.Formed
  primary : Forms AnyKind (primary n) Expr.Formed
  trailers {e : Expr} (h : e.Formed) : Forms AnyKind (trailers n e) Expr.Formed
  arguments : Forms AnyKind (arguments n) FormedAll
  testsUntil (close : Symbol) : Forms AnyKind (testsUntil close n) FormedAll
  atom : Forms AnyKind (atom n) Expr.Formed

section

variable {left right e e' : Expr} {es : List Expr} {p : Position}

theorem formed_binary (op : BinaryOp) (h : left.Formed) (h' : right.Formed) :
    (Expr.binary op left right p).Formed :=
  Expr.formed_of_parts trivial (by simp [Expr.parts, h, h'])

theorem formed_unary (op : UnaryOp) (h : e.Formed) : (Expr.unary op e p).Formed :=
  Expr.formed_of_parts trivial (by simp [Expr.parts, h])

theorem formed_tuple (h : FormedAll es) : (Expr.tuple es p).Formed :=
  Expr.formed_of_parts trivial h

theorem formed_list (h : FormedAll es) : (Expr.list es p).Formed :=
  Expr.formed_of_parts trivial h

theorem formed_logic (op : BoolOp) (h : e.Formed) (hs : FormedAll es) (more : es ≠ []) :
    (Expr.logic op (e :: es) p).Formed := by
  refine Expr.formed_of_parts ?_ (List.forall_mem_cons.2 ⟨h, hs⟩)
  exact Nat.succ_le_succ (List.length_pos_iff.2 more)

theorem formed_compare {links : List (CompareOp × Expr)} (h : e.Formed)
    (hs : FormedAll (links.map Prod.snd)) (more : links ≠ []) :
    (Expr.compare e links p).Formed :=
  Expr.formed_of_parts more (List.forall_mem_cons.2 ⟨h, hs⟩)

theorem formed_choice (h : left.Formed) (h' : right.Formed) (h'' : e.Formed) :
    (Expr.choice left right e p).Formed :=
  Expr.formed_of_parts trivial (by simp [Expr.parts, h, h', h''])

theorem formed_call (h : e.Formed) (hs : FormedAll es) : (Expr.call e es p).Formed :=
  Expr.formed_of_parts trivial (List.forall_mem_cons.2 ⟨h, hs⟩)

theorem formed_subscript (h : e.Formed) (h' : e'.Formed) : (Expr.subscript e e' p).Formed :=
  Expr.formed_of_parts trivial (by simp [Expr.parts, h, h'])

theorem formed_member {attr : String} (h : e.Formed) (name : isIdentifier attr = true) :
    (Expr.member e attr p).Formed :=
  Expr.formed_of_parts name (by simp [Expr.parts, h])

theorem formed_const {k : Constant} (h : (Node.expr (.const k p)).Shaped) :
    (Expr.const k p).Formed := Expr.formed_of_parts h (List.forall_mem_nil _)

end

theorem leaves_adjacentStrings (n : Nat) : Leaves (adjacentStrings n) := by
  induction n with
  | zero => exact .failHere
  | succ n ih =>
    unfold adjacentStrings
    refine .bind .peek fun k _ => ?_
    split
    · exact .skip .advance fun _ => .skip ih fun s => .pure trivial
    · exact .pure trivial

theorem leaves_compareOp? : Leaves compareOp? := by
  have one {op : CompareOp} : Leaves (do advance; return some op) :=
    .skip .advance fun _ => .pure trivial
  unfold compareOp?
  refine .bind .peek fun k _ => ?_
  split
  case h_1 | h_2 | h_3 | h_4 | h_5 | h_6 | h_7 => exact one
  case h_8 =>
    refine .skip .peekSecond fun k' => ?_
    split
    · exact .skip .advance fun _ => one
    · exact .pure trivial
  case h_9 => exact .skip .advance fun _ => .skip .accept fun _ => .pure trivial
  case h_10 => exact .pure trivial

namespace AllForm

variable {n : Nat} (ih : AllForm n)

include ih

theorem next_testList : Forms AnyKind (Parser.testList (n + 1)) Expr.Formed := by
  unfold Parser.testList
  refine .bind ih.test fun e he => .skip .isAt fun comma => ?_
  split
  · exact .bind ih.moreTests fun es hes => .pure (formed_tuple (List.forall_mem_cons.2 ⟨he, hes⟩))
  · exact .pure he

theorem next_moreTests : Forms AnyKind (Parser.moreTests (n + 1)) FormedAll := by
  unfold Parser.moreTests
  refine .skip .accept fun comma => ?_
  split
  · refine .skip .isAtExpression fun isTest => ?_
    split
    · refine .bind ih.test fun e he => .bind ih.moreTests fun es hes => .pure ?_
      exact List.forall_mem_cons.2 ⟨he, hes⟩
    · exact .pure (List.forall_mem_nil _)
  · exact .pure (List.forall_mem_nil _)

theorem next_test : Forms AnyKind (Parser.test (n + 1)) Expr.Formed := by
  unfold Parser.test
  refine .bind ih.orTest fun body hbody => .skip .accept fun isChoice => ?_
  split
  · refine .bind ih.orTest fun condition h => .skip .expect fun _ => ?_
    exact .bind ih.test fun orelse horelse => .pure (formed_choice h hbody horelse)
  · exact .pure hbody

theorem next_orTest : Forms AnyKind (Parser.orTest (n + 1)) Expr.Formed := by
  unfold Parser.orTest
  refine .bind ih.andTest fun e he => .bind ih.moreOr fun others hothers => ?_
  split
  · exact .pure he
  · next more => exact .pure (formed_logic .or he hothers more)

theorem next_moreOr : Forms AnyKind (Parser.moreOr (n + 1)) FormedAll := by
  unfold Parser.moreOr
  exact .separated ih.andTest ih.moreOr

theorem next_andTest : Forms AnyKind (Parser.andTest (n + 1)) Expr.Formed := by
  unfold Parser.andTest
  refine .bind ih.notTest fun e he => .bind ih.moreAnd fun others hothers => ?_
  split
  · exact .pure he
  · next more => exact .pure (formed_logic .and he hothers more)

theorem next_moreAnd : Forms AnyKind (Parser.moreAnd (n + 1)) FormedAll := by
  unfold Parser.moreAnd
  exact .separated ih.notTest ih.moreAnd

theorem next_notTest : Forms AnyKind (Parser.notTest (n + 1)) Expr.Formed := by
  unfold Parser.notTest
  refine .skip .here fun p => .skip .accept fun isNot => ?_
  split
  · exact .bind ih.notTest fun e he => .pure (formed_unary .not he)
  · exact ih.comparison

theorem next_comparison : Forms AnyKind (Parser.comparison (n + 1)) Expr.Formed := by
  unfold Parser.comparison
  refine .bind ih.arith fun left hleft => .bind ih.moreLinks fun links hlinks => ?_
  split
  · exact .pure hleft
  · next more => exact .pure (formed_compare hleft hlinks more)

theorem next_moreLinks :
    Forms AnyKind (Parser.moreLinks (n + 1)) fun links => FormedAll (links.map Prod.snd) := by
  unfold Parser.moreLinks
  refine .skip leaves_compareOp? fun found => ?_
  split
  · refine .bind ih.arith fun e he => .bind ih.moreLinks fun links hlinks => .pure ?_
    exact List.forall_mem_cons.2 ⟨he, hlinks⟩
  · exact .pure (List.forall_mem_nil _)

theorem next_arith : Forms AnyKind (Parser.arith (n + 1)) Expr.Formed := by
  unfold Parser.arith
  exact .bind ih.term fun left hleft => ih.moreTerms hleft

theorem next_moreTerms {left : Expr} (h : left.Formed) :
    Forms AnyKind (Parser.moreTerms (n + 1) left) Expr.Formed := by
  unfold Parser.moreTerms
  refine .bind .peek fun k _ => ?_
  split
  · next op _ =>
    refine .skip .advance fun _ => .bind ih.term fun right hright => ?_
    exact ih.moreTerms (formed_binary op h hright)
  · exact .pure h

theorem next_term : Forms AnyKind (Parser.term (n + 1)) Expr.Formed := by
  unfold Parser.term
  exact .bind ih.factor fun left hleft => ih.moreFactors hleft

theorem next_moreFactors {left : Expr} (h : left.Formed) :
    Forms AnyKind (Parser.moreFactors (n + 1) left) Expr.Formed := by
  unfold Parser.moreFactors
  refine .bind .peek fun k _ => ?_
  split
  · next op _ =>
    refine .skip .advance fun _ => .bind ih.factor fun right hright => ?_
    exact ih.moreFactors (formed_binary op h hright)
  · exact .pure h

theorem next_factor : Forms AnyKind (Parser.factor (n + 1)) Expr.Formed := by
  unfold Parser.factor
  refine .skip .here fun p => .bind .peek fun k _ => ?_
  split
  · next op _ => exact .skip .advance fun _ => .bind ih.factor fun e he => .pure (formed_unary op he)
  · exact ih.power

theorem next_power : Forms AnyKind (Parser.power (n + 1)) Expr.Formed := by
  unfold Parser.power
  refine .bind ih.primary fun base hbase => .skip .accept fun isRaised => ?_
  split
  · exact .bind ih.factor fun exponent h => .pure (formed_binary .pow hbase h)
  · exact .pure hbase

theorem next_primary : Forms AnyKind (Parser.primary (n + 1)) Expr.Formed := by
  unfold Parser.primary
  exact .bind ih.atom fun e he => ih.trailers he

theorem next_trailers {e : Expr} (h : e.Formed) :
    Forms AnyKind (Parser.trailers (n + 1) e) Expr.Formed := by
  unfold Parser.trailers
  refine .skip .accept fun isCall => ?_
  split
  · refine .bind ih.arguments fun args hargs => .skip .expect fun _ => ?_
    exact ih.trailers (formed_call h hargs)
  · refine .skip .accept fun isSubscript => ?_
    split
    · refine .bind ih.testList fun index hindex => .skip .expect fun _ => ?_
      exact ih.trailers (formed_subscript h hindex)
    · refine .skip .accept fun isMember => ?_
      split
      · exact .bind .identifier fun attr name => ih.trailers (formed_member h name)
      · exact .pure h

theorem next_arguments : Forms AnyKind (Parser.arguments (n + 1)) FormedAll := by
  unfold Parser.arguments
  refine .skip .isAt fun ended => ?_
  split
  · exact .pure (List.forall_mem_nil _)
  · refine .skip .isAtKeywordArgument fun isNamed => ?_
    split
    · exact .failHere
    · refine .bind ih.test fun e he => .skip .accept fun more => ?_
      split
      · exact .bind ih.arguments fun es hes => .pure (List.forall_mem_cons.2 ⟨he, hes⟩)
      · exact .pure (List.forall_mem_singleton.2 he)

theorem next_testsUntil (close : Symbol) :
    Forms AnyKind (Parser.testsUntil close (n + 1)) FormedAll := by
  unfold Parser.testsUntil
  refine .skip .isAt fun ended => ?_
  split
  · exact .pure (List.forall_mem_nil _)
  · refine .bind ih.test fun e he => .skip .accept fun more => ?_
    split
    · exact .bind (ih.testsUntil close) fun es hes => .pure (List.forall_mem_cons.2 ⟨he, hes⟩)
    · exact .pure (List.forall_mem_singleton.2 he)

theorem next_atom : Forms AnyKind (Parser.atom (n + 1)) Expr.Formed := by
  unfold Parser.atom
  refine .skip .here fun p => .bind .peek fun k spelled => ?_
  split
  case h_1 v =>
    refine .skip .advance fun _ => .pure (formed_const ?_)
    obtain ⟨cs, spells⟩ := spelled rfl
    cases spells with
    | int _ value =>
      change 0 ≤ v.toInt
      rw [value]
      exact Int.natCast_nonneg _
  case h_2 | h_3 | h_4 | h_5 => exact .skip .advance fun _ => .pure (formed_const trivial)
  case h_6 id =>
    refine .skip .advance fun _ => .pure (Expr.formed_of_parts ?_ (List.forall_mem_nil _))
    obtain ⟨cs, spells⟩ := spelled rfl
    cases spells with
    | name isName => exact isName
  case h_7 =>
    exact .skip (leaves_adjacentStrings n) fun text => .pure (formed_const trivial)
  case h_8 =>
    refine .skip .advance fun _ => .skip .accept fun isEmpty => ?_
    split
    · exact .pure (formed_tuple (List.forall_mem_nil _))
    · refine .bind ih.test fun e he => .skip .accept fun isTuple => ?_
      split
      · refine .bind (ih.testsUntil _) fun es hes => .skip .expect fun _ => .pure ?_
        exact formed_tuple (List.forall_mem_cons.2 ⟨he, hes⟩)
      · exact .skip .expect fun _ => .pure he
  case h_9 =>
    refine .skip .advance fun _ => .bind (ih.testsUntil _) fun items h => .skip .expect fun _ => ?_
    exact .pure (formed_list h)
  case h_10 => exact .failFound

end AllForm

theorem allForm (n : Nat) : AllForm n := by
  induction n with
  | zero =>
    constructor <;> intros <;> exact .failHere
  | succ n ih =>
    exact ⟨ih.next_testList, ih.next_moreTests, ih.next_test, ih.next_orTest, ih.next_moreOr,
      ih.next_andTest, ih.next_moreAnd, ih.next_notTest, ih.next_comparison, ih.next_moreLinks,
      ih.next_arith, ih.next_moreTerms, ih.next_term, ih.next_moreFactors, ih.next_factor,
      ih.next_power, ih.next_primary, ih.next_trailers, ih.next_arguments, ih.next_testsUntil,
      ih.next_atom⟩

end Parser

end Footprint
