import Footprint.Proofs.Grammar

set_option autoImplicit false

/-!
What the parser of expressions reads is derived by the grammar: the tokens that it passes make up
the phrase of the tree that it gives.
-/

namespace Footprint

open Token Grammar

theorem Token.Kind.isMark_iff {k : Kind} {m : Mark} : k.isMark m = true ↔ k = .mark m := by
  cases k with
  | mark n => simp [Kind.isMark]
  | int | float | str | name => simp [Kind.isMark]

theorem Token.Kind.ne_of_isMark {k : Kind} {m : Mark} (h : k.isMark m = false) : k ≠ .mark m := by
  intro same
  rw [Kind.isMark_iff.2 same] at h
  cases h

namespace Parser

/-- The token ahead and all after it. -/
def Cursor.ahead (c : Cursor) : List Token := c.front :: c.rest

theorem Cursor.ahead_next {c : Cursor} {t u : Token} {ts : List Token} (h : c.ahead = t :: u :: ts)
    (other : t.kind ≠ .mark .endOfFile) : c.next.ahead = u :: ts := by
  obtain ⟨front, rest, lastLine⟩ := c
  obtain ⟨rfl, rfl⟩ := List.cons.inj h
  have unended : front.kind.isMark .endOfFile = false := by
    rw [Bool.eq_false_iff]
    exact fun ended => other (Kind.isMark_iff.1 ended)
  simp [next, ahead, unended]

/-- It is enough to look at the second token to tell that no keyword is ahead. -/
theorem isAtKeywordArgument_apply (c : Cursor) :
    isAtKeywordArgument c = .ok (true, c) ∧ c.rest.head?.map Token.kind = some (sym .assign) ∨
      isAtKeywordArgument c = .ok (false, c) := by
  unfold isAtKeywordArgument peek peekSecond
  dsimp only [Bind.bind, StateT.bind, Except.bind]
  generalize c.front.kind = k
  generalize c.rest.head?.map Token.kind = k'
  split
  · exact .inl ⟨rfl, rfl⟩
  · exact .inr rfl

/-- The token ahead is of the kind. -/
def Cursor.IsAt (k : Kind) (c : Cursor) : Prop := c.front.kind = k

theorem Cursor.isAt_next {c : Cursor} {k : Kind} (second : c.rest.head?.map Token.kind = some k)
    (other : c.front.kind ≠ .mark .endOfFile) : c.next.IsAt k := by
  obtain ⟨t, ht, rfl⟩ := Option.map_eq_some_iff.1 second
  obtain ⟨ts, hts⟩ := List.head?_eq_some_iff.1 ht
  have ahead : c.ahead = c.front :: t :: ts := congrArg (c.front :: ·) hts
  exact congrArg Token.kind (List.cons.inj (ahead_next ahead other)).1

/-- Nothing is known of what is ahead. -/
abbrev Cursor.Anywhere (_ : Cursor) : Prop := True

/-- From the cursors at hand, the parser reads tokens before the end of a line; they and what it
gives are in a relation. -/
def Reads {α : Type} (start : Cursor → Prop) (x : Parse α) (Q : List Kind → α → Prop) : Prop :=
  ∀ ⦃c c' : Cursor⦄ ⦃a : α⦄ ⦃p : List Token⦄ ⦃stop : Token⦄ ⦃rest : List Token⦄,
    stop.kind = .mark .newline → c.ahead = p ++ stop :: rest → start c → x c = .ok (a, c') →
    ∃ q r, p = q ++ r ∧ c'.ahead = r ++ stop :: rest ∧ Q (q.map Token.kind) a

namespace Reads

open Cursor

variable {α β : Type} {start : Cursor → Prop} {Q Q' : List Kind → α → Prop}

theorem imp {x : Parse α} (h : Reads start x Q) (weaker : ∀ ks a, Q ks a → Q' ks a) :
    Reads start x Q' := by
  intro c c' a p stop rest ends before hc read
  obtain ⟨q, r, hp, after, hQ⟩ := h ends before hc read
  exact ⟨q, r, hp, after, weaker _ _ hQ⟩

theorem restrict {start' : Cursor → Prop} {x : Parse α} (h : Reads start x Q)
    (stronger : ∀ c, start' c → start c) : Reads start' x Q :=
  fun c _ _ _ _ _ ends before hc read => h ends before (stronger c hc) read

theorem anyhow {x : Parse α} (h : Reads Anywhere x Q) : Reads start x Q :=
  h.restrict fun _ _ => trivial

theorem never {x : Parse α} (h : ∀ c, ¬ start c) : Reads start x Q :=
  fun c _ _ _ _ _ _ _ hc _ => absurd hc (h c)

theorem pure {a : α} (h : Q [] a) : Reads start (pure a) Q := by
  intro c c' b p stop rest _ before _ read
  cases read
  exact ⟨[], p, rfl, before, h⟩

theorem failHere {f : Fault} : Reads start (failHere f) Q := by
  intro c c' a p stop rest _ _ _ read
  cases read

theorem failFound {f : Kind → Fault} : Reads start (failFound f) Q := by
  intro c c' a p stop rest _ _ _ read
  cases read

theorem bind {x : Parse β} {f : β → Parse α} {P : List Kind → β → Prop} (hx : Reads start x P)
    (hf : ∀ ks b, P ks b → Reads Anywhere (f b) fun ks' a => Q (ks ++ ks') a) :
    Reads start (x >>= f) Q := by
  intro c c' a p stop rest ends before hc read
  change (x c >>= fun r => f r.1 r.2) = _ at read
  cases hr : x c with
  | error e =>
    rw [hr] at read
    cases read
  | ok r =>
    rw [hr] at read
    obtain ⟨q, r', rfl, between, hP⟩ := hx ends before hc hr
    obtain ⟨q', r'', rfl, after, hQ⟩ := hf _ r.1 hP ends between trivial read
    refine ⟨q ++ q', r'', (List.append_assoc q q' r'').symm, after, ?_⟩
    rw [List.map_append]
    exact hQ

theorem peek {f : Kind → Parse α}
    (hf : ∀ k, Reads (fun c => start c ∧ c.IsAt k) (f k) Q) : Reads start (peek >>= f) Q :=
  fun _ _ _ _ _ _ ends before hc read => hf _ ends before ⟨hc, rfl⟩ read

theorem here {f : Position → Parse α} (hf : ∀ p, Reads start (f p) Q) :
    Reads start (here >>= f) Q :=
  fun _ _ _ _ _ _ ends before hc read => hf _ ends before hc read

theorem isAtExpression {f : Bool → Parse α} (hf : ∀ b, Reads start (f b) Q) :
    Reads start (isAtExpression >>= f) Q :=
  fun _ _ _ _ _ _ ends before hc read => hf _ ends before hc read

theorem isAtKeywordArgument {f : Bool → Parse α} (hf : ∀ b, Reads start (f b) Q) :
    Reads start (isAtKeywordArgument >>= f) Q := by
  intro c c' a p stop rest ends before hc read
  change (Parser.isAtKeywordArgument c >>= fun r => f r.1 r.2) = _ at read
  rcases isAtKeywordArgument_apply c with ⟨looked, -⟩ | looked
  · rw [looked] at read
    exact hf true ends before hc read
  · rw [looked] at read
    exact hf false ends before hc read

theorem isAt {m : Mark} {x y : Parse α} (hx : Reads (IsAt (.mark m)) x Q) (hy : Reads start y Q) :
    Reads start (do if ← isAt m then x else y) Q := by
  intro c c' a p stop rest ends before hc read
  change (if c.front.kind.isMark m then x else y) c = _ at read
  split at read
  · next found => exact hx ends before (Kind.isMark_iff.1 found) read
  · exact hy ends before hc read

/-- A token that is no layout is passed. -/
theorem advance {next : Cursor → Prop} {k : Kind} {f : Unit → Parse α}
    (at_kind : ∀ c, start c → c.IsAt k) (other : k.isLayout = false)
    (then_at : ∀ c, start c → next c.next)
    (hf : Reads next (f ()) fun ks a => Q (k :: ks) a) : Reads start (advance >>= f) Q := by
  intro c c' a p stop rest ends before hc read
  have front : c.front.kind = k := at_kind c hc
  cases p with
  | nil =>
    -- the end of the line cannot be passed
    obtain rfl : c.front = stop := (List.cons.inj before).1
    rw [← front, ends] at other
    cases other
  | cons t p =>
    obtain rfl : c.front = t := (List.cons.inj before).1
    have unended : c.front.kind ≠ .mark .endOfFile := by
      rw [front]
      rintro rfl
      cases other
    have after : c.next.ahead = p ++ stop :: rest := by
      cases p with
      | nil => exact ahead_next before unended
      | cons u p => exact ahead_next before unended
    obtain ⟨q, r, rfl, after, hQ⟩ := hf ends after (then_at c hc) read
    refine ⟨c.front :: q, r, rfl, after, ?_⟩
    rw [List.map_cons, front]
    exact hQ

theorem pass {k : Kind} {f : Unit → Parse α} (at_kind : ∀ c, start c → c.IsAt k)
    (other : k.isLayout = false) (hf : Reads Anywhere (f ()) fun ks a => Q (k :: ks) a) :
    Reads start (Parser.advance >>= f) Q :=
  advance at_kind other (fun _ _ => trivial) hf

theorem accept {m : Mark} {x y : Parse α} (other : m.isLayout = false)
    (hx : Reads Anywhere x fun ks a => Q (.mark m :: ks) a)
    (hy : Reads (fun c => start c ∧ ¬ c.IsAt (.mark m)) y Q) :
    Reads start (do if ← accept m then x else y) Q := by
  intro c c' a p stop rest ends before hc read
  change ((if c.front.kind.isMark m then Except.ok (true, c.next) else .ok (false, c)) >>=
    fun r => (if r.1 = true then x else y) r.2) = _ at read
  split at read
  · next found =>
    have passed : Reads (IsAt (.mark m)) (Parser.advance >>= fun _ => x) Q :=
      pass (fun _ => id) other hx
    exact passed ends before (Kind.isMark_iff.1 found) read
  · next missing =>
    exact hy ends before ⟨hc, fun found => missing (Kind.isMark_iff.2 found)⟩ read

theorem accepted {m : Mark} (other : m.isLayout = false) :
    Reads start (Parser.accept m) fun ks found => ks = if found then [.mark m] else [] := by
  have split : Parser.accept m = do if ← Parser.accept m then return true else return false := by
    funext c
    change Parser.accept m c = (Parser.accept m c >>= fun r =>
      (if r.1 = true then return true else return false : Parse Bool) r.2)
    unfold Parser.accept
    split
    · rfl
    · rfl
  rw [split]
  exact accept other (.pure rfl) (.pure rfl)

theorem expect {m : Mark} {place : Place} {f : Unit → Parse α} (other : m.isLayout = false)
    (hf : Reads Anywhere (f ()) fun ks a => Q (.mark m :: ks) a) :
    Reads start (expect m place >>= f) Q := by
  intro c c' a p stop rest ends before hc read
  change ((if c.front.kind.isMark m then Except.ok ((), c.next)
    else .error ⟨.missing m place c.front.kind, c.front.pos⟩) >>= fun r => f r.1 r.2) = _ at read
  split at read
  · next found =>
    have passed : Reads (IsAt (.mark m)) (Parser.advance >>= f) Q := pass (fun _ => id) other hf
    exact passed ends before (Kind.isMark_iff.1 found) read
  · cases read

theorem identifier {f : String → Parse α}
    (hf : ∀ s, Reads Anywhere (f s) fun ks a => Q (.name s :: ks) a) :
    Reads start (identifier >>= f) Q := by
  intro c c' a p stop rest ends before hc read
  change (Parser.identifier c >>= fun r => f r.1 r.2) = _ at read
  unfold Parser.identifier at read
  split at read
  · next s named =>
    have passed : Reads (IsAt (.name s)) (Parser.advance >>= fun _ => f s) Q :=
      pass (fun _ => id) rfl (hf s)
    exact passed ends before named read
  · cases read

/-- A run of adjacent strings is read as one. -/
theorem adjacentStrings {n : Nat} {Q : List Kind → String → Prop}
    (some : ∀ texts : List String, texts ≠ [] → Q (texts.map .str) (String.join texts))
    (none : Reads (fun c => start c ∧ ∀ s, ¬ c.IsAt (.str s)) (Pure.pure "") Q) :
    Reads start (adjacentStrings n) Q := by
  induction n generalizing start Q with
  | zero => exact .failHere
  | succ n ih =>
    unfold Parser.adjacentStrings
    refine .peek fun k => ?_
    split
    · next s =>
      have others : Reads Anywhere (Parser.adjacentStrings n) fun ks text =>
          ∃ texts, ks = texts.map .str ∧ text = String.join texts :=
        ih (fun texts _ => ⟨texts, rfl, rfl⟩) (.pure ⟨[], rfl, rfl⟩)
      refine .pass (fun _ h => h.2) rfl (.bind others fun ks text h => .pure ?_)
      obtain ⟨texts, rfl, rfl⟩ := h
      have all := some (s :: texts) (List.cons_ne_nil _ _)
      simpa [String.join_cons] using all
    · next other =>
      refine none.restrict fun c h => ⟨h.1, fun s hs => other s ?_⟩
      exact h.2.symm.trans hs

theorem peekSecond {f : Option Kind → Parse α}
    (hf : ∀ k, Reads (fun c => start c ∧ c.rest.head?.map Token.kind = k) (f k) Q) :
    Reads start (peekSecond >>= f) Q :=
  fun _ _ _ _ _ _ ends before hc read => hf _ ends before ⟨hc, rfl⟩ read

theorem compareOp : Reads start compareOp? fun ks r =>
    match r with
    | some op => Compares ks op
    | none => ks = [] := by
  unfold compareOp?
  refine .peek fun k => ?_
  split
  case h_1 => exact .pass (fun _ h => h.2) rfl (.pure .eq)
  case h_2 => exact .pass (fun _ h => h.2) rfl (.pure .notEq)
  case h_3 => exact .pass (fun _ h => h.2) rfl (.pure .lt)
  case h_4 => exact .pass (fun _ h => h.2) rfl (.pure .le)
  case h_5 => exact .pass (fun _ h => h.2) rfl (.pure .gt)
  case h_6 => exact .pass (fun _ h => h.2) rfl (.pure .ge)
  case h_7 => exact .pass (fun _ h => h.2) rfl (.pure .isIn)
  case h_8 =>
    refine .peekSecond fun k' => ?_
    split
    · refine .advance (fun _ h => h.1.2) rfl (fun c h => ?_)
        (.pass (fun _ => id) rfl (.pure .notIn))
      exact isAt_next h.2 (by rw [show c.front.kind = _ from h.1.2]; exact Kind.ne_of_isMark rfl)
    · exact .pure rfl
  case h_9 =>
    -- the second word is accepted if it is there
    refine .pass (fun _ h => h.2) rfl (.bind (accepted rfl) fun ks second h => .pure ?_)
    cases second with
    | true =>
      obtain rfl : ks = [word .notKw] := h
      exact .notSame
    | false =>
      obtain rfl : ks = [] := h
      exact .same
  case h_10 => exact .pure rfl

end Reads

/-! ### What the parsers of expressions read -/

/-- What the parser reads makes up the phrase of what it gives. -/
def Makes {α : Type} (x : Parse α) (phrase : α → Phrase) : Prop :=
  Reads Cursor.Anywhere x fun ks a => Derives ks (phrase a)

/-- The parsers of expressions, with their depth, read phrases of the grammar. -/
structure AllMake (n : Nat) : Prop where
  testList : Makes (testList n) fun e => .testList e.unplaced
  moreTests : Makes (moreTests n) fun es => .moreTests (Expr.unplacedAll es)
  moreTests_ne_nil :
    Reads (Cursor.IsAt (sym .comma)) (Parser.moreTests n) fun ks es =>
      ks ≠ [] ∧ Derives ks (.moreTests (Expr.unplacedAll es))
  test : Makes (test n) fun e => .test e.unplaced
  orTest : Makes (orTest n) fun e => .orTest e.unplaced
  moreOr : Makes (moreOr n) fun es => .moreOr (Expr.unplacedAll es)
  andTest : Makes (andTest n) fun e => .andTest e.unplaced
  moreAnd : Makes (moreAnd n) fun es => .moreAnd (Expr.unplacedAll es)
  notTest : Makes (notTest n) fun e => .notTest e.unplaced
  comparison : Makes (comparison n) fun e => .comparison e.unplaced
  moreLinks : Makes (moreLinks n) fun links => .moreLinks (Expr.unplacedLinks links)
  arith : Makes (arith n) fun e => .arith e.unplaced
  moreTerms (left : Expr) : Reads Cursor.Anywhere (moreTerms n left) fun ks e =>
    ∃ others, Derives ks (.moreTerms others) ∧ e.unplaced = leftwards left.unplaced others
  term : Makes (term n) fun e => .term e.unplaced
  moreFactors (left : Expr) : Reads Cursor.Anywhere (moreFactors n left) fun ks e =>
    ∃ others, Derives ks (.moreFactors others) ∧ e.unplaced = leftwards left.unplaced others
  factor : Makes (factor n) fun e => .factor e.unplaced
  power : Makes (power n) fun e => .power e.unplaced
  primary : Makes (primary n) fun e => .primary e.unplaced
  trailers (e : Expr) : Reads Cursor.Anywhere (trailers n e) fun ks e' =>
    ∃ ts, Derives ks (.trailers ts) ∧ e'.unplaced = ts.foldl Trailer.onto e.unplaced
  arguments : Makes (arguments n) fun es => .items (Expr.unplacedAll es)
  testsUntil (close : Symbol) :
    Makes (testsUntil close n) fun es => .items (Expr.unplacedAll es)
  atom : Makes (atom n) fun e => .atom e.unplaced

theorem arithOp?_eq_some {k : Kind} {op : BinaryOp} (h : arithOp? k = some op) :
    ∃ s, k = sym s ∧ Adds s op := by
  unfold arithOp? at h
  split at h
  · cases h
    exact ⟨_, rfl, .add⟩
  · cases h
    exact ⟨_, rfl, .sub⟩
  · cases h

theorem termOp?_eq_some {k : Kind} {op : BinaryOp} (h : termOp? k = some op) :
    ∃ s, k = sym s ∧ Multiplies s op := by
  unfold termOp? at h
  split at h
  · cases h
    exact ⟨_, rfl, .mul⟩
  · cases h
    exact ⟨_, rfl, .div⟩
  · cases h
    exact ⟨_, rfl, .floorDiv⟩
  · cases h
    exact ⟨_, rfl, .mod⟩
  · cases h

theorem signOp?_eq_some {k : Kind} {op : UnaryOp} (h : signOp? k = some op) :
    ∃ s, k = sym s ∧ Signs s op := by
  unfold signOp? at h
  split at h
  · cases h
    exact ⟨_, rfl, .neg⟩
  · cases h
    exact ⟨_, rfl, .pos⟩
  · cases h

namespace AllMake

variable {n : Nat} (ih : AllMake n)

include ih

theorem next_testList : Makes (Parser.testList (n + 1)) fun e => .testList e.unplaced := by
  unfold Parser.testList
  refine .bind ih.test fun ks first h => .isAt (.bind ih.moreTests_ne_nil fun ks' es h' => ?_) ?_
  · refine .pure ?_
    simpa using Derives.openTuple h h'.2 h'.1
  · refine .pure ?_
    simpa using Derives.testList h

theorem reads_moreTests {start : Cursor → Prop} {Q : List Kind → List Expr → Prop}
    (some : ∀ ks es, Derives (sym .comma :: ks) (.moreTests (Expr.unplacedAll es)) →
      Q (sym .comma :: ks) es)
    (none : Reads (fun c => start c ∧ ¬ c.IsAt (sym .comma)) (pure []) Q) :
    Reads start (Parser.moreTests (n + 1)) Q := by
  unfold Parser.moreTests
  refine .accept rfl (.isAtExpression fun isTest => ?_) none
  cases isTest with
  | true =>
    refine .bind ih.test fun ks e h => .bind ih.moreTests fun ks' es h' => .pure ?_
    apply some
    simpa using Derives.moreTests h h'
  | false => exact .pure (some [] [] .lastComma)

theorem next_moreTests : Makes (Parser.moreTests (n + 1)) fun es =>
    .moreTests (Expr.unplacedAll es) :=
  ih.reads_moreTests (fun _ _ h => h) (.pure .noMoreTests)

theorem next_moreTests_ne_nil :
    Reads (Cursor.IsAt (sym .comma)) (Parser.moreTests (n + 1)) fun ks es =>
      ks ≠ [] ∧ Derives ks (.moreTests (Expr.unplacedAll es)) :=
  ih.reads_moreTests (fun _ _ h => ⟨List.cons_ne_nil _ _, h⟩) (.never fun _ h => h.2 h.1)

theorem next_test : Makes (Parser.test (n + 1)) fun e => .test e.unplaced := by
  unfold Parser.test
  refine .bind ih.orTest fun ks body h => .accept rfl ?_ ?_
  · refine .bind ih.orTest fun ks' condition h' => .expect rfl ?_
    refine .bind ih.test fun ks'' orelse h'' => .pure ?_
    simpa using Derives.choice h h' h''
  · refine .pure ?_
    simpa using Derives.test h

theorem next_orTest : Makes (Parser.orTest (n + 1)) fun e => .orTest e.unplaced := by
  unfold Parser.orTest
  refine .bind ih.andTest fun ks first h => .bind ih.moreOr fun ks' es h' => ?_
  cases es with
  | nil =>
    cases h'
    exact .pure (by simpa using Derives.orTest h)
  | cons e es => exact .pure (by simpa using Derives.disjunction h h' (List.cons_ne_nil _ _))

theorem next_moreOr : Makes (Parser.moreOr (n + 1)) fun es => .moreOr (Expr.unplacedAll es) := by
  unfold Parser.moreOr
  refine .accept rfl (.bind ih.andTest fun ks e h => .bind ih.moreOr fun ks' es h' => .pure ?_) ?_
  · simpa using Derives.moreOr h h'
  · exact .pure .noMoreOr

theorem next_andTest : Makes (Parser.andTest (n + 1)) fun e => .andTest e.unplaced := by
  unfold Parser.andTest
  refine .bind ih.notTest fun ks first h => .bind ih.moreAnd fun ks' es h' => ?_
  cases es with
  | nil =>
    cases h'
    exact .pure (by simpa using Derives.andTest h)
  | cons e es => exact .pure (by simpa using Derives.conjunction h h' (List.cons_ne_nil _ _))

theorem next_moreAnd : Makes (Parser.moreAnd (n + 1)) fun es =>
    .moreAnd (Expr.unplacedAll es) := by
  unfold Parser.moreAnd
  refine .accept rfl (.bind ih.notTest fun ks e h => .bind ih.moreAnd fun ks' es h' => .pure ?_) ?_
  · simpa using Derives.moreAnd h h'
  · exact .pure .noMoreAnd

theorem next_notTest : Makes (Parser.notTest (n + 1)) fun e => .notTest e.unplaced := by
  unfold Parser.notTest
  refine .here fun p => .accept rfl (.bind ih.notTest fun ks e h => .pure ?_) ?_
  · simpa using Derives.negation h
  · exact (ih.comparison.imp fun _ _ h => .notTest h).anyhow

theorem next_comparison : Makes (Parser.comparison (n + 1)) fun e => .comparison e.unplaced := by
  unfold Parser.comparison
  refine .bind ih.arith fun ks left h => .bind ih.moreLinks fun ks' links h' => ?_
  cases links with
  | nil =>
    cases h'
    exact .pure (by simpa using Derives.comparison h)
  | cons link links => exact .pure (by simpa using Derives.chain h h' (List.cons_ne_nil _ _))

theorem next_moreLinks : Makes (Parser.moreLinks (n + 1)) fun links =>
    .moreLinks (Expr.unplacedLinks links) := by
  unfold Parser.moreLinks
  refine .bind .compareOp fun ks found h => ?_
  cases found with
  | some op =>
    refine .bind ih.arith fun ks' e h' => .bind ih.moreLinks fun ks'' links h'' => .pure ?_
    simpa using Derives.moreLinks h h' h''
  | none =>
    obtain rfl : ks = [] := h
    exact .pure .noMoreLinks

theorem next_arith : Makes (Parser.arith (n + 1)) fun e => .arith e.unplaced := by
  unfold Parser.arith
  refine .bind ih.term fun ks left h => (ih.moreTerms left).imp fun ks' e h' => ?_
  obtain ⟨others, h', he⟩ := h'
  dsimp only
  rw [he]
  exact .arith h h'

theorem next_moreTerms (left : Expr) :
    Reads Cursor.Anywhere (Parser.moreTerms (n + 1) left) fun ks e =>
      ∃ others, Derives ks (.moreTerms others) ∧ e.unplaced = leftwards left.unplaced others := by
  unfold Parser.moreTerms
  refine .peek fun k => ?_
  split
  · next op hop =>
    obtain ⟨s, rfl, adds⟩ := arithOp?_eq_some hop
    refine .pass (fun _ h => h.2) rfl (.bind ih.term fun ks right h => ?_)
    refine (ih.moreTerms _).imp fun ks' e h' => ?_
    obtain ⟨others, h', he⟩ := h'
    exact ⟨(op, right.unplaced) :: others, .moreTerms adds h h', he⟩
  · exact .pure ⟨[], .noMoreTerms, rfl⟩

theorem next_term : Makes (Parser.term (n + 1)) fun e => .term e.unplaced := by
  unfold Parser.term
  refine .bind ih.factor fun ks left h => (ih.moreFactors left).imp fun ks' e h' => ?_
  obtain ⟨others, h', he⟩ := h'
  dsimp only
  rw [he]
  exact .term h h'

theorem next_moreFactors (left : Expr) :
    Reads Cursor.Anywhere (Parser.moreFactors (n + 1) left) fun ks e =>
      ∃ others, Derives ks (.moreFactors others) ∧ e.unplaced = leftwards left.unplaced others := by
  unfold Parser.moreFactors
  refine .peek fun k => ?_
  split
  · next op hop =>
    obtain ⟨s, rfl, multiplies⟩ := termOp?_eq_some hop
    refine .pass (fun _ h => h.2) rfl (.bind ih.factor fun ks right h => ?_)
    refine (ih.moreFactors _).imp fun ks' e h' => ?_
    obtain ⟨others, h', he⟩ := h'
    exact ⟨(op, right.unplaced) :: others, .moreFactors multiplies h h', he⟩
  · exact .pure ⟨[], .noMoreFactors, rfl⟩

theorem next_factor : Makes (Parser.factor (n + 1)) fun e => .factor e.unplaced := by
  unfold Parser.factor
  refine .here fun p => .peek fun k => ?_
  split
  · next op hop =>
    obtain ⟨s, rfl, signs⟩ := signOp?_eq_some hop
    refine .pass (fun _ h => h.2) rfl (.bind ih.factor fun ks e h => .pure ?_)
    simpa using Derives.sign signs h
  · exact (ih.power.imp fun _ _ h => .factor h).anyhow

theorem next_power : Makes (Parser.power (n + 1)) fun e => .power e.unplaced := by
  unfold Parser.power
  refine .bind ih.primary fun ks base h => .accept rfl ?_ ?_
  · refine .bind ih.factor fun ks' exponent h' => .pure ?_
    simpa using Derives.raised h h'
  · refine .pure ?_
    simpa using Derives.power h

theorem next_primary : Makes (Parser.primary (n + 1)) fun e => .primary e.unplaced := by
  unfold Parser.primary
  refine .bind ih.atom fun ks e h => (ih.trailers e).imp fun ks' e' h' => ?_
  obtain ⟨ts, h', he⟩ := h'
  dsimp only
  rw [he]
  exact .primary h h'

theorem next_trailers (e : Expr) :
    Reads Cursor.Anywhere (Parser.trailers (n + 1) e) fun ks e' =>
      ∃ ts, Derives ks (.trailers ts) ∧ e'.unplaced = ts.foldl Trailer.onto e.unplaced := by
  unfold Parser.trailers
  refine .accept rfl ?_ (.accept rfl ?_ (.accept rfl ?_ ?_))
  · refine .bind ih.arguments fun ks args h => .expect rfl ?_
    refine (ih.trailers _).imp fun ks' e' h' => ?_
    obtain ⟨ts, h', he⟩ := h'
    exact ⟨.call (Expr.unplacedAll args) :: ts, .call h h', he⟩
  · refine .bind ih.testList fun ks index h => .expect rfl ?_
    refine (ih.trailers _).imp fun ks' e' h' => ?_
    obtain ⟨ts, h', he⟩ := h'
    exact ⟨.subscript index.unplaced :: ts, .subscript h h', he⟩
  · refine .identifier fun attr => (ih.trailers _).imp fun ks e' h => ?_
    obtain ⟨ts, h, he⟩ := h
    exact ⟨.member attr :: ts, .member attr h, he⟩
  · exact .pure ⟨[], .noTrailers, rfl⟩

theorem next_arguments : Makes (Parser.arguments (n + 1)) fun es =>
    .items (Expr.unplacedAll es) := by
  unfold Parser.arguments
  refine .isAt (.pure .noItems) (.isAtKeywordArgument fun isNamed => ?_)
  cases isNamed with
  | true => exact .failHere
  | false =>
    refine .bind ih.test fun ks e h => .accept rfl ?_ ?_
    · refine .bind ih.arguments fun ks' es h' => .pure ?_
      simpa using Derives.items h h'.moreTests_of_items
    · refine .pure ?_
      simpa using Derives.items h .noMoreTests

theorem next_testsUntil (close : Symbol) : Makes (Parser.testsUntil close (n + 1)) fun es =>
    .items (Expr.unplacedAll es) := by
  unfold Parser.testsUntil
  refine .isAt (.pure .noItems) (.bind ih.test fun ks e h => .accept rfl ?_ ?_)
  · refine .bind (ih.testsUntil close) fun ks' es h' => .pure ?_
    simpa using Derives.items h h'.moreTests_of_items
  · refine .pure ?_
    simpa using Derives.items h .noMoreTests

theorem next_atom : Makes (Parser.atom (n + 1)) fun e => .atom e.unplaced := by
  unfold Parser.atom
  refine .here fun p => .peek fun k => ?_
  split
  case h_1 v => exact .pass (fun _ h => h.2) rfl (.pure (.int v))
  case h_2 v => exact .pass (fun _ h => h.2) rfl (.pure (.float v))
  case h_3 => exact .pass (fun _ h => h.2) rfl (.pure .true)
  case h_4 => exact .pass (fun _ h => h.2) rfl (.pure .false)
  case h_5 => exact .pass (fun _ h => h.2) rfl (.pure .none)
  case h_6 id => exact .pass (fun _ h => h.2) rfl (.pure (.name id))
  case h_7 s =>
    refine .bind (P := fun ks text => Derives ks (.atom (.const (.str text) .start)))
      (.adjacentStrings .strings (.never fun c h => h.2 s h.1.2)) fun ks text h => .pure ?_
    simpa using h
  case h_8 =>
    refine .pass (fun _ h => h.2) rfl (.accept rfl (.pure .emptyTuple) ?_)
    refine .bind ih.test.anyhow fun ks first h => .accept rfl ?_ ?_
    · refine .bind (ih.testsUntil _) fun ks' es h' => .expect rfl (.pure ?_)
      simpa using Derives.tuple h h'.moreTests_of_items (List.cons_ne_nil _ _)
    · refine .expect rfl (.pure ?_)
      simpa using Derives.parenthesis h
  case h_9 =>
    refine .pass (fun _ h => h.2) rfl (.bind (ih.testsUntil _) fun ks es h => .expect rfl ?_)
    refine .pure ?_
    simpa using Derives.list h
  case h_10 => exact .failFound

end AllMake

theorem allMake (n : Nat) : AllMake n := by
  induction n with
  | zero =>
    constructor <;> intros <;> exact .failHere
  | succ n ih =>
    exact ⟨ih.next_testList, ih.next_moreTests, ih.next_moreTests_ne_nil, ih.next_test,
      ih.next_orTest, ih.next_moreOr, ih.next_andTest, ih.next_moreAnd, ih.next_notTest,
      ih.next_comparison, ih.next_moreLinks, ih.next_arith, ih.next_moreTerms, ih.next_term,
      ih.next_moreFactors, ih.next_factor, ih.next_power, ih.next_primary, ih.next_trailers,
      ih.next_arguments, ih.next_testsUntil, ih.next_atom⟩

end Parser

end Footprint
