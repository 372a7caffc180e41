import Mathlib
import Footprint.Proofs.Lexemes
import Footprint.Proofs.TokenLines

set_option autoImplicit false

/-!
A text and its tokens: the text is made of the lexemes of the tokens and of gaps around them. What
stands in a gap says whether a line ends there.
-/

namespace Footprint

theorem Position.afterAll_append (p : Position) (cs ds : List Char) :
    p.afterAll (cs ++ ds) = (p.afterAll cs).afterAll ds := List.foldl_append

namespace Token

/-- What may stand between two tokens; the flag says whether a line ends there. -/
inductive IsGap : Bool → List Char → Prop
  | nil : IsGap false []
  | blank {feeds : Bool} {c : Char} {cs : List Char} : c ∈ [' ', '\t', '\x0c', '\r'] →
      IsGap feeds cs → IsGap feeds (c :: cs)
  | join {feeds : Bool} {cs : List Char} : IsGap feeds cs → IsGap feeds ('\\' :: '\n' :: cs)
  | joinReturn {feeds : Bool} {cs : List Char} : IsGap feeds cs →
      IsGap feeds ('\\' :: '\r' :: '\n' :: cs)
  | feed {feeds : Bool} {cs : List Char} : IsGap feeds cs → IsGap true ('\n' :: cs)
  | comment {feeds : Bool} {text cs : List Char} : '\n' ∉ text → IsGap feeds cs →
      IsGap true ('#' :: (text ++ '\n' :: cs))

/-- What may stand after the last token: no line feed has to end a comment there. -/
inductive IsLastGap : List Char → Prop
  | gap {feeds : Bool} {cs : List Char} : IsGap feeds cs → IsLastGap cs
  | comment {feeds : Bool} {cs text : List Char} : IsGap feeds cs → '\n' ∉ text →
      IsLastGap (cs ++ '#' :: text)

/-- There is a newline among the tokens. -/
def HasNewline (ts : List Token) : Prop := ∃ t ∈ ts, t.kind = .mark .newline

/-- From the position on, the text is made of gaps and of lexemes that spell the tokens which are no
layout, one after the other. A token stands where its lexeme begins, and ends on the line of the last
character of it. Between two tokens with no open bracket around, `depth` being how many there are
after a token, there is a newline if and only if a line ends in the gap. -/
inductive Splits : Position → Option Nat → List Char → List Token → Prop
  | last {p : Position} {depth : Option Nat} {gap : List Char} {layout : List Token} :
      IsLastGap gap → (∀ t ∈ layout, t.kind.isLayout = true) → Splits p depth gap layout
  | token {p : Position} {depth : Option Nat} {after : Nat} {feeds : Bool}
      {gap lexeme cs : List Char} {layout ts : List Token} {t : Token} :
      IsGap feeds gap → (∀ t ∈ layout, t.kind.isLayout = true) →
      (depth = some 0 → (HasNewline layout ↔ feeds = true)) →
      t.kind.Spells lexeme → t.pos = p.afterAll gap →
      t.endLine = (t.pos.afterAll lexeme.dropLast).line →
      t.kind.depthAfter? (depth.getD 0) = some after →
      Splits (p.afterAll (gap ++ lexeme)) (some after) cs ts →
      Splits p depth (gap ++ lexeme ++ cs) (layout ++ t :: ts)

/-! ### Gaps -/

section

variable {feeds feeds' : Bool} {c : Char} {gap cs ds text : List Char} {g : Glyph}
  {gs rest : List Glyph}

theorem IsGap.append (h : IsGap feeds cs) (h' : IsGap feeds' ds) :
    IsGap (feeds || feeds') (cs ++ ds) := by
  induction h with
  | nil => exact h'
  | blank hc _ ih => exact .blank hc ih
  | join _ ih => exact .join ih
  | joinReturn _ ih => exact .joinReturn ih
  | feed _ ih => exact .feed ih
  | @comment feeds text cs none _ ih =>
    rw [List.cons_append, List.append_assoc]
    exact .comment none ih

/-- A gap so far, or one with a comment after it that goes up to the end of the line. -/
def Pending (feeds : Bool) (gap : List Char) (rest : List Glyph) : Prop :=
  IsGap feeds gap ∨ ∃ cs text, gap = cs ++ '#' :: text ∧ IsGap feeds cs ∧ '\n' ∉ text ∧
    ∀ g ∈ rest.head?, g.char = '\n'

theorem Pending.after (h : Pending feeds' cs rest) (before : IsGap feeds gap) :
    Pending (feeds || feeds') (gap ++ cs) rest := by
  rcases h with h | ⟨cs, text, rfl, h, none, stop⟩
  · exact .inl (before.append h)
  · exact .inr ⟨gap ++ cs, text, (List.append_assoc _ _ _).symm, before.append h, none, stop⟩

theorem Pending.whole (h : Pending feeds gap (g :: gs)) (other : g.char ≠ '\n') :
    IsGap feeds gap := by
  rcases h with h | ⟨cs, text, rfl, h, none, stop⟩
  · exact h
  · exact absurd (stop g rfl) other

theorem Pending.last (h : Pending feeds gap []) : IsLastGap gap := by
  rcases h with h | ⟨cs, text, rfl, h, none, stop⟩
  · exact .gap h
  · exact .comment h none

theorem Pending.feed (h : Pending feeds gap rest) : IsGap true (gap ++ ['\n']) := by
  rcases h with h | ⟨cs, text, rfl, h, none, stop⟩
  · simpa using h.append (.feed .nil)
  · simpa using h.append (.comment none .nil)

theorem spans_margin (column : Nat) (gs : List Glyph) :
    ∃ cs, Spans gs cs (margin column gs).2 ∧ IsGap false cs := by
  fun_induction margin column gs with
  | case1 | case5 => exact ⟨[], .refl _, .nil⟩
  | case2 _ g gs blank ih | case3 _ g gs _ blank ih | case4 _ g gs _ _ blank ih =>
    obtain ⟨cs, spans, gap⟩ := ih
    exact ⟨g.char :: cs, spans.cons g, .blank (by simp [blank]) gap⟩

theorem Pending.margin (h : Pending feeds gap gs) (column : Nat) :
    ∃ cs, Spans gs cs (margin column gs).2 ∧ Pending feeds (gap ++ cs) (margin column gs).2 := by
  rcases h with h | ⟨cs, text, rfl, h, none, stop⟩
  · obtain ⟨cs, spans, blanks⟩ := spans_margin column gs
    exact ⟨cs, spans, .inl (by simpa using h.append blanks)⟩
  · -- at the end of a line there is no margin to pass
    have still : (Token.margin column gs).2 = gs := by
      cases gs with
      | nil => rfl
      | cons g gs => simp [Token.margin, stop g rfl]
    rw [still]
    exact ⟨[], .refl gs, .inr ⟨cs, text, List.append_nil _, h, none, stop⟩⟩

theorem spans_afterComment (gs : List Glyph) :
    ∃ text, Spans gs text (afterComment gs) ∧ '\n' ∉ text ∧
      ∀ g ∈ (afterComment gs).head?, g.char = '\n' := by
  refine ⟨(gs.takeWhile (·.char ≠ '\n')).map Glyph.char,
    ⟨_, List.takeWhile_append_dropWhile.symm, rfl⟩, fun feed => ?_, fun g hg => ?_⟩
  · obtain ⟨g, hg, feed⟩ := List.mem_map.1 feed
    have all := List.all_eq_true.1 (List.all_takeWhile (l := gs)) g hg
    simp [feed] at all
  · have stop := List.head?_dropWhile_not (fun g : Glyph => decide (g.char ≠ '\n')) gs
    rw [show (gs.dropWhile fun g => decide (g.char ≠ '\n')).head? = some g from hg] at stop
    simpa using stop

theorem afterBlanks_comment (gs : List Glyph) : afterBlanks true gs = afterComment gs := by
  unfold afterComment
  induction gs with
  | nil => rfl
  | cons g gs ih =>
    unfold afterBlanks
    by_cases feed : g.char = '\n'
    · simp [feed]
    · simpa [feed] using ih

theorem spans_afterBlanks {comment : Bool} (outside : comment = false) (gs : List Glyph) :
    ∃ cs, Spans gs cs (afterBlanks comment gs) ∧ Pending false cs (afterBlanks comment gs) := by
  have longer {b : List Char} {gs' rest : List Glyph} (skips : Spans gs' b rest)
      (blank : IsGap false b)
      (ih : ∃ cs, Spans rest cs (afterBlanks false rest) ∧
        Pending false cs (afterBlanks false rest)) :
      ∃ cs, Spans gs' cs (afterBlanks false rest) ∧ Pending false cs (afterBlanks false rest) := by
    obtain ⟨cs, spans, pending⟩ := ih
    exact ⟨b ++ cs, skips.trans spans, pending.after blank⟩
  fun_induction afterBlanks comment gs with
  | case1 | case7 | case8 | case9 | case10 => exact ⟨[], .refl _, .inl .nil⟩
  | case2 comment g gs going =>
    subst outside
    cases going
  | case3 comment g gs _ blank ih =>
    refine longer (.one g gs) (.blank ?_ .nil) (ih rfl)
    simpa [or_assoc, or_comm, or_left_comm] using blank
  | case4 comment g gs _ _ hash =>
    rw [afterBlanks_comment]
    obtain ⟨text, spans, none, stop⟩ := spans_afterComment gs
    exact ⟨'#' :: text, hash ▸ spans.cons g, .inr ⟨[], text, rfl, .nil, none, stop⟩⟩
  | case5 comment g _ _ _ backslash a gs feed ih =>
    have skips := (Spans.one a gs).cons g
    rw [backslash, feed] at skips
    exact longer skips (.join .nil) (ih rfl)
  | case6 comment g _ _ _ backslash a other b gs feed ih =>
    have skips := ((Spans.one b gs).cons a).cons g
    rw [backslash, feed.1, feed.2] at skips
    exact longer skips (.joinReturn .nil) (ih rfl)

theorem IsGap.blanks (h : IsGap feeds gap) (gs : List Glyph) :
    ∃ cs, Spans gs cs (afterBlanks false gs) ∧
      Pending feeds (gap ++ cs) (afterBlanks false gs) := by
  obtain ⟨cs, spans, blanks⟩ := spans_afterBlanks rfl gs
  exact ⟨cs, spans, by simpa using blanks.after h⟩

end

/-! ### Positions -/

namespace Glyph

variable {p : Position} {cs ds : List Char} {rest : List Glyph}

/-- What is left of a text stands where the part that has been passed ends. -/
theorem exists_of_spans (h : Spans (ofChars p cs) ds rest) :
    ∃ cs', cs = ds ++ cs' ∧ rest = ofChars (p.afterAll ds) cs' := by
  induction ds generalizing p cs with
  | nil =>
    obtain ⟨taken, split, none⟩ := h
    obtain rfl := List.map_eq_nil_iff.1 none
    exact ⟨cs, rfl, split.symm⟩
  | cons d ds ih =>
    obtain ⟨taken, split, chars⟩ := h
    obtain ⟨g, taken, rfl, rfl, others⟩ := List.map_eq_cons_iff.1 chars
    cases cs with
    | nil => cases split
    | cons c cs =>
      obtain ⟨rfl, behind⟩ := List.cons.inj split
      obtain ⟨cs', rfl, same⟩ := ih ⟨taken, behind, others⟩
      exact ⟨cs', rfl, same⟩

end Glyph

/-! ### The scan -/

/-- How far the scan has come from a position on, at which a token ends or the text begins: past the
gap and the layout, with the characters ahead. -/
structure Since (finish p : Position) (depth : Option Nat) (feeds : Bool) (gap : List Char)
    (layout : List Token) (cs : List Char) (gs : List Glyph) : Prop where
  glyphs : gs = Glyph.ofChars (p.afterAll gap) cs
  ends : finish = p.afterAll (gap ++ cs)
  all : ∀ t ∈ layout, t.kind.isLayout = true
  newline : depth = some 0 → (HasNewline layout ↔ feeds = true)

section

variable {finish p : Position} {depth : Option Nat} {feeds : Bool} {gap cs ds : List Char}
  {layout : List Token} {gs rest : List Glyph}

theorem Since.pass (h : Since finish p depth feeds gap layout cs gs) (spans : Spans gs ds rest) :
    ∃ cs', cs = ds ++ cs' ∧ Since finish p depth feeds (gap ++ ds) layout cs' rest := by
  obtain ⟨rfl, rfl, all, newline⟩ := h
  obtain ⟨cs', rfl, rfl⟩ := Glyph.exists_of_spans spans
  refine ⟨cs', rfl, ?_, by rw [List.append_assoc], all, newline⟩
  rw [Position.afterAll_append]

theorem Since.margin (h : Since finish p depth feeds gap layout cs gs)
    (pending : Pending feeds gap gs) {column : Nat} (blank : Token.margin 0 gs = (column, rest)) :
    ∃ ds cs', cs = ds ++ cs' ∧ Since finish p depth feeds (gap ++ ds) layout cs' rest ∧
      Pending feeds (gap ++ ds) rest := by
  obtain ⟨ds, spans, passed⟩ := pending.margin 0
  rw [blank] at spans passed
  obtain ⟨cs', rfl, next⟩ := h.pass spans
  exact ⟨ds, cs', rfl, next, passed⟩

theorem Since.blanks (h : Since finish p depth feeds gap layout cs gs) (isGap : IsGap feeds gap)
    (blank : afterBlanks false gs = rest) :
    ∃ ds cs', cs = ds ++ cs' ∧ Since finish p depth feeds (gap ++ ds) layout cs' rest ∧
      Pending feeds (gap ++ ds) rest := by
  obtain ⟨ds, spans, passed⟩ := isGap.blanks gs
  rw [blank] at spans passed
  obtain ⟨cs', rfl, next⟩ := h.pass spans
  exact ⟨ds, cs', rfl, next, passed⟩

/-- A line ends. -/
theorem Since.feed {g : Glyph} (h : Since finish p depth feeds gap layout cs (g :: gs))
    (feed : g.char = '\n') {layout' : List Token} (all : ∀ t ∈ layout', t.kind.isLayout = true)
    (newline : depth = some 0 → HasNewline layout') :
    ∃ cs', cs = '\n' :: cs' ∧ Since finish p depth true (gap ++ ['\n']) layout' cs' gs := by
  obtain ⟨cs', rfl, next⟩ := h.pass (Spans.one g gs)
  rw [feed] at next ⊢
  exact ⟨cs', rfl, next.glyphs, next.ends, all, fun outside => iff_of_true (newline outside) rfl⟩

/-- A line ends outside of brackets, with a newline if it is open. -/
theorem Since.endLine {g : Glyph} (h : Since finish p depth feeds gap layout cs (g :: gs))
    (feed : g.char = '\n') {isOpen : Bool} (marked : depth = some 0 → isOpen = true ∨ feeds = true)
    {t : Token} (newline : t.kind = .mark .newline) :
    ∃ cs', cs = '\n' :: cs' ∧
      Since finish p depth true (gap ++ ['\n']) (layout ++ if isOpen then [t] else []) cs' gs := by
  refine h.feed feed (fun u hu => ?_) fun outer => ?_
  · rcases List.mem_append.1 hu with hu | hu
    · exact h.all u hu
    · cases isOpen with
      | true =>
        obtain rfl := List.mem_singleton.1 hu
        rw [newline]
        rfl
      | false => cases hu
  · rcases marked outer with rfl | rfl
    · exact ⟨t, List.mem_append_right _ List.mem_cons_self, newline⟩
    · obtain ⟨u, hu, newline⟩ := (h.newline outer).2 rfl
      exact ⟨u, List.mem_append_left _ hu, newline⟩

/-- Layout without newlines. -/
theorem Since.append (h : Since finish p depth feeds gap layout cs gs) {layout' : List Token}
    (all : ∀ t ∈ layout', t.kind.isLayout = true ∧ t.kind ≠ .mark .newline) :
    Since finish p depth feeds gap (layout ++ layout') cs gs := by
  refine ⟨h.glyphs, h.ends, fun t ht => ?_, fun outside => ?_⟩
  · exact (List.mem_append.1 ht).elim (h.all t) fun ht => (all t ht).1
  · rw [← h.newline outside]
    constructor
    · rintro ⟨t, ht, newline⟩
      refine ⟨t, (List.mem_append.1 ht).resolve_right fun ht => (all t ht).2 newline, newline⟩
    · rintro ⟨t, ht, newline⟩
      exact ⟨t, List.mem_append_left _ ht, newline⟩

theorem Since.last (h : Since finish p depth feeds gap layout cs []) (isLast : IsLastGap gap)
    {ts : List Token} (all : ∀ t ∈ ts, t.kind.isLayout = true) :
    Splits p depth (gap ++ cs) (layout ++ ts) := by
  cases cs with
  | nil =>
    rw [List.append_nil]
    exact .last isLast fun t ht => (List.mem_append.1 ht).elim (h.all t) (all t)
  | cons c cs => cases h.glyphs

/-- A token stands where its lexeme begins and ends on the line of the last character of it. -/
theorem stands_at_lexeme {finish p : Position} {depth : Nat} {g : Glyph} {r : Read}
    {lexeme cs : List Char} (glyphs : g :: gs = Glyph.ofChars p cs) (ends : finish = p.afterAll cs)
    (other : g.char ≠ '\n') (found : read finish depth g gs = .ok r)
    (spans : Spans (g :: gs) lexeme r.rest) :
    g.pos = p ∧ (tokenAt finish g r).endLine = (p.afterAll lexeme.dropLast).line := by
  have first : g.pos = p := by
    cases cs with
    | nil => cases glyphs
    | cons c cs => rw [(List.cons.inj glyphs).1]
  refine ⟨first, ?_⟩
  obtain ⟨taken, last, split, kept⟩ := closes_read other found
  obtain ⟨cs', rfl, behind⟩ := Glyph.exists_of_spans (glyphs ▸ spans)
  have lexeme_eq : lexeme = taken.map Glyph.char ++ [last.char] := by
    obtain ⟨taken', split', rfl⟩ := spans
    have same : taken' = taken ++ [last] := by
      have whole : taken' ++ r.rest = (taken ++ [last]) ++ r.rest := by
        rw [← split', split, List.append_cons]
      exact List.append_cancel_right whole
    rw [same, List.map_append]
    rfl
  have line : (Glyph.here finish r.rest).line = (p.afterAll lexeme.dropLast).line := by
    rw [ends, behind, Position.afterAll_append, Glyph.here_ofChars, lexeme_eq, List.dropLast_concat,
      Position.afterAll_append]
    change (Position.after _ last.char).line = _
    rw [Position.after, if_neg kept]
  have before := Glyph.line_le_afterAll p lexeme.dropLast
  simp only [tokenAt, line, first]
  exact Nat.max_eq_left before

/-- What has been passed fits where in a line the scan stands. -/
def Spot.Fits (depth : Option Nat) (feeds : Bool) (gap : List Char) (ahead : List Glyph) :
    Spot → Prop
  | .lineStart => Pending feeds gap ahead ∧ ∀ d, depth = some d → d = 0 ∧ feeds = true
  | .within d isOpen => IsGap feeds gap ∧ depth.getD 0 = d ∧
      (depth = some 0 → isOpen = true ∨ feeds = true)

/-- The scan has come to a stage, in the text from a position on, past layout alone. -/
def Reaches (finish p : Position) (depth : Option Nat) (text : List Char) (layout : List Token)
    (s : Stage) : Prop :=
  ∃ feeds gap cs, text = gap ++ cs ∧ Since finish p depth feeds gap layout cs s.ahead ∧
    s.spot.Fits depth feeds gap s.ahead

namespace Reaches

variable {text : List Char} {columns columns' : List Nat} {column d : Nat} {isOpen : Bool}
  {g : Glyph} {s s' : Stage} {ts us : List Token}

theorem blank (h : Reaches finish p depth text layout ⟨columns, .lineStart, gs⟩)
    (blank : Token.margin 0 gs = (column, g :: rest)) (ended : g.char = '\n' ∨ g.char = '\r') :
    Reaches finish p depth text layout ⟨columns, .lineStart, rest⟩ := by
  obtain ⟨feeds, gap, cs, rfl, since, pending, outside⟩ := h
  obtain ⟨ds, cs', rfl, next, passed⟩ := since.margin pending blank
  rw [← List.append_assoc]
  by_cases newline : g.char = '\n'
  · obtain ⟨cs', rfl, after⟩ := next.feed newline next.all fun outer =>
      (next.newline outer).2 (outside 0 outer).2
    exact ⟨true, _, cs', List.append_cons _ _ _, after, .inl passed.feed,
      fun d hd => ⟨(outside d hd).1, rfl⟩⟩
  · have whole := (passed.whole newline).append
      (.blank (by simp [ended.resolve_left newline]) .nil : IsGap false [g.char])
    obtain ⟨cs', rfl, after⟩ := next.pass (Spans.one g rest)
    rw [Bool.or_false] at whole
    exact ⟨feeds, _, cs', (List.append_assoc _ _ _).symm, after, .inl whole, outside⟩

theorem comment (h : Reaches finish p depth text layout ⟨columns, .lineStart, gs⟩)
    (blank : Token.margin 0 gs = (column, g :: rest)) (hash : g.char = '#') :
    Reaches finish p depth text layout ⟨columns, .lineStart, afterComment rest⟩ := by
  obtain ⟨feeds, gap, cs, rfl, since, pending, outside⟩ := h
  obtain ⟨ds, cs', rfl, next, passed⟩ := since.margin pending blank
  obtain ⟨words, comment, none, stop⟩ := spans_afterComment rest
  obtain ⟨cs', rfl, after⟩ := next.pass (hash ▸ comment.cons g)
  have whole := passed.whole (by rw [hash]; decide)
  refine ⟨feeds, _, cs', ?_, after, .inr ⟨_, words, rfl, whole, none, stop⟩, outside⟩
  rw [List.append_assoc, List.append_assoc]

theorem begins (h : Reaches finish p depth text layout ⟨columns, .lineStart, gs⟩)
    (blank : Token.margin 0 gs = (column, g :: rest)) (begins : BeginsText g.char)
    (indented : indentation columns column g.pos = .ok (us, columns')) :
    Reaches finish p depth text (layout ++ us) ⟨columns', .within 0 isOpen, g :: rest⟩ := by
  obtain ⟨feeds, gap, cs, rfl, since, pending, outside⟩ := h
  obtain ⟨ds, cs', rfl, next, passed⟩ := since.margin pending blank
  have whole := passed.whole fun newline => begins.1 (.inl newline)
  refine ⟨feeds, _, cs', (List.append_assoc _ _ _).symm, next.append fun t ht => ?_, whole, ?_, ?_⟩
  · obtain ⟨m, rfl, layout, other⟩ := indentation_layout indented t ht
    exact ⟨layout, fun newline => other (Kind.mark.inj newline)⟩
  · cases depth with
    | none => rfl
    | some d => exact (outside d rfl).1
  · exact fun outer => .inr (outside 0 outer).2

theorem join (h : Reaches finish p depth text layout ⟨columns, .within d isOpen, gs⟩)
    (blank : afterBlanks false gs = g :: rest) (feed : g.char = '\n') (inside : 0 < d) :
    Reaches finish p depth text layout ⟨columns, .within d isOpen, rest⟩ := by
  obtain ⟨feeds, gap, cs, rfl, since, isGap, rfl, -⟩ := h
  obtain ⟨ds, cs', rfl, next, passed⟩ := since.blanks isGap blank
  have never : depth ≠ some 0 := by
    rintro rfl
    exact absurd inside (Nat.lt_irrefl 0)
  obtain ⟨cs', rfl, after⟩ := next.feed feed next.all fun outer => absurd outer never
  refine ⟨true, _, cs', ?_, after, passed.feed, rfl, fun outer => absurd outer never⟩
  rw [← List.append_assoc, List.append_cons]

theorem ends (h : Reaches finish p depth text layout ⟨columns, .within 0 isOpen, gs⟩)
    (blank : afterBlanks false gs = g :: rest) (feed : g.char = '\n') {t : Token}
    (newline : t.kind = .mark .newline) :
    Reaches finish p depth text (layout ++ if isOpen then [t] else [])
      ⟨columns, .lineStart, rest⟩ := by
  obtain ⟨feeds, gap, cs, rfl, since, isGap, same, marked⟩ := h
  obtain ⟨ds, cs', rfl, next, passed⟩ := since.blanks isGap blank
  obtain ⟨cs', rfl, after⟩ := next.endLine feed marked newline
  refine ⟨true, _, cs', ?_, after, .inl passed.feed, fun d hd => ⟨?_, rfl⟩⟩
  · rw [← List.append_assoc, List.append_cons]
  · rw [hd] at same
    exact same

/-- Behind a token, where the next gap begins. -/
theorem behind (glyphs : gs = Glyph.ofChars p cs) (ends : finish = p.afterAll cs) :
    Reaches finish p (some d) cs [] ⟨columns, .within d true, gs⟩ := by
  refine ⟨false, [], cs, rfl, ⟨glyphs, ends, List.forall_mem_nil _, fun _ => ?_⟩, .nil, rfl, ?_⟩
  · simp [HasNewline]
  · exact fun _ => .inl rfl

theorem token (h : Reaches finish p depth text layout ⟨columns, .within d isOpen, gs⟩)
    (blank : afterBlanks false gs = g :: rest) (other : g.char ≠ '\n') {r : Read}
    (found : read finish d g rest = .ok r)
    (ih : ∀ p cs, Reaches finish p (some r.depth) cs [] ⟨columns, .within r.depth true, r.rest⟩ →
      Splits p (some r.depth) cs ts) :
    Splits p depth text (layout ++ tokenAt finish g r :: ts) := by
  obtain ⟨feeds, gap, cs, rfl, since, isGap, rfl, -⟩ := h
  obtain ⟨ds, cs', rfl, next, passed⟩ := since.blanks isGap blank
  obtain ⟨lexeme, spells, spans⟩ := spells_read found
  obtain ⟨first, last⟩ := stands_at_lexeme next.glyphs
    (by rw [next.ends, Position.afterAll_append]) other found spans
  obtain ⟨cs', rfl, after⟩ := next.pass spans
  rw [← List.append_assoc, ← List.append_assoc]
  refine .token (passed.whole other) next.all next.newline spells first ?_ (depth_of_read found)
    (ih _ cs' (behind after.glyphs ?_))
  · rw [last, ← first]
    rfl
  · rw [after.ends, Position.afterAll_append]

theorem last (h : Reaches finish p depth text layout s) (stops : Stops finish s (.ok ts)) :
    Splits p depth text (layout ++ ts) := by
  have all : ∀ t ∈ ts, t.kind.isLayout = true := by
    intro t ht
    obtain ⟨m, layout, -, rfl⟩ := stops.eq_mark_of_mem ht
    exact layout
  generalize result : Except.ok ts = r at stops
  cases stops with
  | afterLine blank =>
    obtain ⟨feeds, gap, cs, rfl, since, pending, -⟩ := h
    obtain ⟨ds, cs', rfl, next, passed⟩ := since.margin pending blank
    rw [← List.append_assoc]
    exact next.last passed.last all
  | inLine blank =>
    obtain ⟨feeds, gap, cs, rfl, since, isGap, -⟩ := h
    obtain ⟨ds, cs', rfl, next, passed⟩ := since.blanks isGap blank
    rw [← List.append_assoc]
    exact next.last passed.last all
  | unaligned | unread => cases result

theorem step (h : Reaches finish p depth text layout s) (step : Step finish s us s')
    (ih : ∀ p depth text layout, Reaches finish p depth text layout s' →
      Splits p depth text (layout ++ ts)) :
    Splits p depth text (layout ++ (us ++ ts)) := by
  cases step with
  | blank blank ended => exact ih _ _ _ _ (h.blank blank ended)
  | comment blank hash => exact ih _ _ _ _ (h.comment blank hash)
  | begins blank begins indented =>
    rw [← List.append_assoc]
    exact ih _ _ _ _ (h.begins blank begins indented)
  | join blank feed inside => exact ih _ _ _ _ (h.join blank feed inside)
  | ends blank feed =>
    rw [← List.append_assoc]
    exact ih _ _ _ _ (h.ends blank feed rfl)
  | token blank other found => exact h.token blank other found fun p cs => ih p _ cs []

end Reaches

/-- From every stage on the tokens and the text ahead split. -/
theorem splits_scan {s : Stage} {ts : List Token} (h : s.scan finish = .ok ts) :
    ∀ p depth text layout, Reaches finish p depth text layout s →
      Splits p depth text (layout ++ ts) := by
  refine scan_induction (fun s vs stops => ?_) (fun s us s' vs step ih => ?_) h
  · exact fun p depth text layout came => came.last stops
  · exact fun p depth text layout came => came.step step ih

theorem reaches_start (source : String) :
    Reaches (Position.start.afterAll source.toList) .start none source.toList []
      (.start .start source.toList) :=
  ⟨false, [], source.toList, rfl, ⟨rfl, rfl, List.forall_mem_nil _, nofun⟩, .inl .nil, nofun⟩

end

theorem Splits.spelled {p : Position} {depth : Option Nat} {cs : List Char} {ts : List Token}
    (h : Splits p depth cs ts) :
    ∀ t ∈ ts, t.kind.isLayout = false → ∃ cs, t.kind.Spells cs := by
  have layoutOnly {ls : List Token} (all : ∀ t ∈ ls, t.kind.isLayout = true) :
      ∀ t ∈ ls, t.kind.isLayout = false → ∃ cs, t.kind.Spells cs := by
    intro t ht other
    rw [all t ht] at other
    cases other
  induction h with
  | last _ all => exact layoutOnly all
  | token _ all _ spells _ _ _ _ ih =>
    intro u hu other
    rcases List.mem_append.1 hu with hu | hu
    · exact layoutOnly all u hu other
    · rcases List.mem_cons.1 hu with rfl | hu
      · exact ⟨_, spells⟩
      · exact ih u hu other

/-- The tokens of a text that are no layout are spelled in it. -/
theorem spelled_of_tokenize {source : String} {ts : List Token} (h : tokenize source = .ok ts) :
    ∀ t ∈ ts, t.kind.isLayout = false → ∃ cs, t.kind.Spells cs := by
  rw [tokenize_eq] at h
  have splits := splits_scan h _ _ _ _ (reaches_start source)
  exact splits.spelled

end Token

/-- Nothing is lost when a text is made into tokens, and each token is where it says: the text is made
of gaps and of the lexemes of its tokens. -/
theorem splits_tokenize {source : String} {ts : List Token} (h : tokenize source = .ok ts) :
    Token.Splits .start none source.toList ts := by
  rw [tokenize_eq] at h
  exact Token.splits_scan h .start none source.toList [] (Token.reaches_start source)

/-- A list on two lines, with a comment behind it. -/
theorem splits_tokenize_list :
    let source := "x = [1,\n 2_0]  # two\ny\n"
    let ts : List Token := [⟨.name "x", ⟨1, 1⟩, 1⟩, ⟨.mark (.symbol .assign), ⟨1, 3⟩, 1⟩,
      ⟨.mark (.symbol .openBracket), ⟨1, 5⟩, 1⟩, ⟨.int 1, ⟨1, 6⟩, 1⟩,
      ⟨.mark (.symbol .comma), ⟨1, 7⟩, 1⟩, ⟨.int 20, ⟨2, 2⟩, 2⟩,
      ⟨.mark (.symbol .closeBracket), ⟨2, 5⟩, 2⟩, ⟨.mark .newline, ⟨2, 13⟩, 3⟩,
      ⟨.name "y", ⟨3, 1⟩, 3⟩, ⟨.mark .newline, ⟨3, 2⟩, 4⟩, ⟨.mark .endOfFile, ⟨4, 1⟩, 4⟩]
    tokenize source = .ok ts ∧ Token.Splits .start none source.toList ts := by
  intro source ts
  have tokens : tokenize source = .ok ts := by cbv
  exact ⟨tokens, splits_tokenize tokens⟩

end Footprint
