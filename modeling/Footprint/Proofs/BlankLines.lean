import Footprint.Proofs.FrontEnd
import Footprint.Proofs.Lowering
import Footprint.Proofs.WholeLines

set_option autoImplicit false

/-!
A line put into a text that is blank or holds a comment alone. Nothing of it is seen, but what comes
after it stands one line further down.
-/

namespace Footprint

open Token

/-- A line of blanks, and perhaps a comment, with its end. -/
inductive IsBlankLine : List Char → Prop
  | feed : IsBlankLine ['\n']
  | comment {text : List Char} : '\n' ∉ text → IsBlankLine ('#' :: (text ++ ['\n']))
  | blank {b : Char} {cs : List Char} : b ∈ [' ', '\t', '\r', '\x0c'] → IsBlankLine cs →
      IsBlankLine (b :: cs)

/-- The scan of the first part comes to its end at the beginning of a line, with no bracket open. -/
def ReachesLine (p q : List Char) : Prop :=
  ∃ ts columns, Leads (Position.start.afterAll (p ++ q)) (.start .start (p ++ q)) ts
    ⟨columns, .lineStart, Glyph.ofChars (Position.start.afterAll p) q⟩

/-- The line on which begins what comes after the whole lines. -/
def lineAfter (p : List Char) : Nat := p.count '\n' + 1

/-- Whatever stands on the line `n` or after it goes one line down. -/
def Relocation.downFrom (n : Nat) : Relocation where
  position p := if n ≤ p.line then p.down else p
  line l := if n ≤ l then l + 1 else l

/-- The token stands before the line `n`; where a layout token ends does not matter. -/
structure Token.Above (n : Nat) (t : Token) : Prop where
  pos : t.pos.line < n
  endLine : t.kind.isLayout = false → t.endLine < n

def Token.downFrom (n : Nat) (t : Token) : Token := if n ≤ t.pos.line then t.down else t

def Token.Error.downFrom (n : Nat) (e : Token.Error) : Token.Error :=
  ⟨e.fault, (Relocation.downFrom n).position e.pos⟩

def Parser.Error.downFrom (n : Nat) (e : Parser.Error) : Parser.Error :=
  ⟨e.fault, (Relocation.downFrom n).position e.pos⟩

section

variable {p : Position} {n : Nat} {t : Token}

theorem Relocation.position_of_le (h : n ≤ p.line) : (Relocation.downFrom n).position p = p.down :=
  if_pos h

theorem Token.movesTo_downFrom (h : t.kind.isLayout = false → (n ≤ t.pos.line ↔ n ≤ t.endLine)) :
    t.MovesTo (.downFrom n) (t.downFrom n) := by
  unfold downFrom
  split
  · next le => exact ⟨rfl, (if_pos le).symm, fun other => (if_pos ((h other).1 le)).symm⟩
  · next lt => exact ⟨rfl, (if_neg lt).symm, fun other => (if_neg (lt ∘ (h other).2)).symm⟩

end

/-! ### The line -/

theorem Token.Glyph.ofChars_append (p : Position) (cs ds : List Char) :
    ofChars p (cs ++ ds) = ofChars p cs ++ ofChars (p.afterAll cs) ds := by
  induction cs generalizing p with
  | nil => rfl
  | cons c cs ih => exact congrArg _ (ih (p.after c))

/-- A line that ends or has a comment after the margin is passed. -/
theorem Token.Leads.of_margin {finish : Position} {columns : List Nat} {column : Nat} {g : Glyph}
    {gs rest : List Glyph} {s : Stage} (blank : margin 0 gs = (column, g :: rest))
    (next : (g.char = '\n' ∨ g.char = '\r') ∧ Leads finish ⟨columns, .lineStart, rest⟩ [] s ∨
      g.char = '#' ∧ Leads finish ⟨columns, .lineStart, afterComment rest⟩ [] s) :
    Leads finish ⟨columns, .lineStart, gs⟩ [] s := by
  rcases next with ⟨feed, leads⟩ | ⟨hash, leads⟩
  · exact (Leads.single (.blank blank feed)).trans leads
  · exact (Leads.single (.comment blank hash)).trans leads

namespace IsBlankLine

variable {c : List Char}

theorem afterAll_eq (h : IsBlankLine c) (p : Position) : p.afterAll c = ⟨p.line + 1, 1⟩ := by
  induction h generalizing p with
  | feed => rfl
  | @comment text none =>
    have line : (p.afterAll ('#' :: text)).line = p.line := by
      rw [Position.line_afterAll, List.count_eq_zero_of_not_mem (by simpa using none), Nat.add_zero]
    rw [← List.cons_append, Position.afterAll_append, ← line]
    rfl
  | @blank b cs hb _ ih =>
    have other : b ≠ '\n' := by
      rintro rfl
      exact absurd hb (by decide)
    change (p.after b).afterAll cs = _
    rw [ih, Position.after, if_neg other]

/-- The scan passes the line and gives no token. -/
theorem leads (h : IsBlankLine c) (finish p : Position) (columns : List Nat) (q : List Char) :
    Leads finish ⟨columns, .lineStart, Glyph.ofChars p (c ++ q)⟩ []
      ⟨columns, .lineStart, Glyph.ofChars (p.afterAll c) q⟩ := by
  -- some of the margin may have been passed before; it makes no difference
  suffices ∀ column, ∃ column' g rest,
      margin column (Glyph.ofChars p (c ++ q)) = (column', g :: rest) ∧
      ((g.char = '\n' ∨ g.char = '\r') ∧ Leads finish ⟨columns, .lineStart, rest⟩ []
          ⟨columns, .lineStart, Glyph.ofChars (p.afterAll c) q⟩ ∨
        g.char = '#' ∧ Leads finish ⟨columns, .lineStart, afterComment rest⟩ []
          ⟨columns, .lineStart, Glyph.ofChars (p.afterAll c) q⟩) by
    obtain ⟨column, g, rest, blank, next⟩ := this 0
    exact Leads.of_margin blank next
  induction h generalizing p with
  | feed => exact fun column => ⟨column, _, _, rfl, .inl ⟨.inl rfl, .refl⟩⟩
  | @comment text none =>
    have line : afterComment (Glyph.ofChars (p.after '#') (text ++ ['\n'] ++ q)) =
        Glyph.ofChars ((p.after '#').afterAll text) (['\n'] ++ q) := by
      rw [List.append_assoc, Glyph.ofChars_append, afterComment, List.dropWhile_append_of_pos]
      · rfl
      · intro g hg
        have text := List.mem_map_of_mem (f := Glyph.char) hg
        rw [Glyph.map_char_ofChars] at text
        refine decide_eq_true fun feed => none ?_
        rwa [← feed]
    have last : Leads finish ⟨columns, .lineStart,
        afterComment (Glyph.ofChars (p.after '#') (text ++ ['\n'] ++ q))⟩ []
        ⟨columns, .lineStart, Glyph.ofChars (p.afterAll ('#' :: (text ++ ['\n']))) q⟩ := by
      rw [line, ← List.cons_append, Position.afterAll_append]
      exact .single (.blank rfl (.inl rfl))
    exact fun column => ⟨column, _, _, rfl, .inr ⟨rfl, last⟩⟩
  | @blank b cs hb _ ih =>
    intro column
    simp only [List.mem_cons, List.not_mem_nil, or_false] at hb
    rcases hb with rfl | rfl | rfl | rfl
    · exact ih _ (column + 1)
    · exact ih _ (tabStop column)
    · -- a carriage return ends the margin, and a new one begins after it
      obtain ⟨column', g, rest, blank, next⟩ := ih (p.after '\r') 0
      exact ⟨column, _, _, rfl, .inl ⟨.inr rfl, Leads.of_margin blank next⟩⟩
    · exact ih _ 0

end IsBlankLine

/-! ### Before and after the line -/

section

variable {n : Nat} {finish : Position} {s s' : Stage} {ts : List Token}

/-- What a scan gives stands on the lines that were ahead. -/
theorem Token.line_le_of_scan (ahead : ∀ g ∈ s.ahead, n ≤ g.pos.line) (end_le : n ≤ finish.line) :
    (∀ ts, s.scan finish = .ok ts → ∀ t ∈ ts, n ≤ t.pos.line) ∧
    ∀ e, s.scan finish = .error e → n ≤ e.pos.line := by
  constructor
  · intro ts h t ht
    obtain ⟨us, s', vs, leads, stops, rfl⟩ := scan_eq_ok h
    rcases List.mem_append.1 ht with ht | ht
    · obtain ⟨g, hg, pos⟩ := leads.pos_of_mem ht
      exact pos ▸ ahead g hg
    · exact stops.pos_of_mem ht ▸ end_le
  · intro e h
    obtain ⟨us, s', leads, stops⟩ := scan_eq_error.1 h
    rcases stops.pos_of_error with pos | ⟨g, hg, pos⟩
    · exact pos ▸ end_le
    · exact pos ▸ ahead g (leads.suffix.subset hg)

end

section

variable {p q c : List Char}

theorem afterAll_wholeLines (whole : ∀ c ∈ p.getLast?, c = '\n') :
    Position.start.afterAll p = ⟨lineAfter p, 1⟩ := by
  have line : (Position.start.afterAll p).line = lineAfter p :=
    (Position.line_afterAll .start p).trans (Nat.add_comm _ _)
  rcases List.eq_nil_or_concat p with rfl | ⟨front, last, rfl⟩
  · rfl
  · rw [List.concat_eq_append] at whole line ⊢
    obtain rfl := whole last List.getLast?_concat
    rw [← line, Position.afterAll_append]
    rfl

theorem line_lt_of_wholeLines (whole : ∀ c ∈ p.getLast?, c = '\n') {g : Glyph}
    (hg : g ∈ Glyph.ofChars .start p) : g.pos.line < lineAfter p := by
  have line : (Position.start.afterAll p).line = lineAfter p :=
    congrArg Position.line (afterAll_wholeLines whole)
  rcases List.eq_nil_or_concat p with rfl | ⟨front, last, rfl⟩
  · cases hg
  · rw [List.concat_eq_append] at whole hg line ⊢
    obtain rfl := whole last List.getLast?_concat
    rw [Position.afterAll_append] at line
    change (Position.start.afterAll front).line + 1 = _ at line
    rw [← line, Nat.lt_succ_iff]
    rw [Glyph.ofChars_append] at hg
    rcases List.mem_append.1 hg with hg | hg
    · exact (Glyph.line_of_mem_ofChars hg).2
    · rw [List.mem_singleton.1 hg]

/-- The scan of the first part is the same whatever comes after it. -/
theorem ReachesLine.elsewhere (h : ReachesLine p q) (whole : ∀ c ∈ p.getLast?, c = '\n') :
    ∃ ts columns, (∀ t ∈ ts, t.Above (lineAfter p)) ∧
      ∀ finish cs, Leads finish (.start .start (p ++ cs)) ts
        ⟨columns, .lineStart, Glyph.ofChars (Position.start.afterAll p) cs⟩ := by
  obtain ⟨ts, columns, leads⟩ := h
  have lines : WholeLines (Glyph.ofChars .start p) := by
    intro g hg
    obtain ⟨front, split⟩ := List.getLast?_eq_some_iff.1 hg
    refine whole g.char ?_
    rw [← Glyph.map_char_ofChars .start p, split, List.map_append]
    exact List.getLast?_concat
  rw [Stage.start, Glyph.ofChars_append] at leads
  obtain ⟨as, ahead, -, ends, again⟩ := leads.elsewhere lines (.inr ⟨rfl, Nat.le_refl _⟩)
  obtain rfl : as = [] := List.append_cancel_right ahead.symm
  refine ⟨ts, columns, fun t ht => ⟨?_, fun other => ?_⟩, fun finish cs => ?_⟩
  · have alone := again .start []
    rw [List.append_nil] at alone
    obtain ⟨g, hg, pos⟩ := alone.pos_of_mem ht
    rw [pos]
    exact line_lt_of_wholeLines whole hg
  · obtain ⟨g, hg, line⟩ := ends t ht other
    rw [line]
    exact line_lt_of_wholeLines whole hg
  · rw [Stage.start, Glyph.ofChars_append]
    exact again finish _

/-- The two texts, scanned from the place of the line on. -/
theorem ReachesLine.tokenize_eq (h : ReachesLine p q) (whole : ∀ c ∈ p.getLast?, c = '\n')
    (blank : IsBlankLine c) : ∃ (ts : List Token) (s : Stage) (finish : Position),
      (∀ t ∈ ts, t.Above (lineAfter p)) ∧ lineAfter p ≤ finish.line ∧
      (∀ g ∈ s.ahead, lineAfter p ≤ g.pos.line) ∧
      tokenize (String.ofList (p ++ q)) = (s.scan finish).map (ts ++ ·) ∧
      tokenize (String.ofList (p ++ c ++ q)) = (s.down.scan finish.down).map (ts ++ ·) := by
  obtain ⟨ts, columns, above, leads⟩ := h.elsewhere whole
  have line := afterAll_wholeLines whole
  have after : (Position.start.afterAll p).afterAll c = (Position.start.afterAll p).down := by
    rw [blank.afterAll_eq, line]
    rfl
  refine ⟨ts, ⟨columns, .lineStart, Glyph.ofChars (Position.start.afterAll p) q⟩,
    (Position.start.afterAll p).afterAll q, above, ?_, fun g hg => ?_, ?_, ?_⟩
  · have le := Glyph.line_le_afterAll (Position.start.afterAll p) q
    rwa [line] at le ⊢
  · have le := (Glyph.line_of_mem_ofChars hg).1
    rwa [line] at le
  · rw [Footprint.tokenize_eq, String.toList_ofList, Position.afterAll_append]
    exact (leads _ q).scan_eq
  · have passed := blank.leads (Position.start.afterAll (p ++ (c ++ q)))
      (Position.start.afterAll p) columns q
    have whole := ((leads (Position.start.afterAll (p ++ (c ++ q))) (c ++ q)).trans passed).scan_eq
    rw [List.append_nil, after, Glyph.ofChars_down] at whole
    rw [Footprint.tokenize_eq, String.toList_ofList, List.append_assoc, whole,
      Position.afterAll_append, Position.afterAll_append, after, Position.afterAll_down]
    rfl

theorem ReachesLine.tokenize_insert (h : ReachesLine p q) (whole : ∀ c ∈ p.getLast?, c = '\n')
    (blank : IsBlankLine c) :
    tokenize (String.ofList (p ++ c ++ q)) =
      ((tokenize (String.ofList (p ++ q))).map (List.map (Token.downFrom (lineAfter p)))).mapError
        (Token.Error.downFrom (lineAfter p)) := by
  obtain ⟨ts, s, finish, above, end_le, ahead, first, second⟩ := h.tokenize_eq whole blank
  obtain ⟨tokens, errors⟩ := Token.line_le_of_scan ahead end_le
  rw [first, second, scan_down]
  cases result : s.scan finish with
  | error e =>
    have moved := Relocation.position_of_le (errors e result)
    change Except.error (Token.Error.mk _ e.pos.down) = .error (.mk _ _)
    rw [moved]
  | ok us =>
    have still : ts.map (Token.downFrom (lineAfter p)) = ts :=
      (List.map_congr_left fun t ht => if_neg (Nat.not_le_of_lt (above t ht).pos)).trans
        (List.map_id ts)
    have moved : us.map (Token.downFrom (lineAfter p)) = us.map Token.down :=
      List.map_congr_left fun t ht => if_pos (tokens us result t ht)
    refine congrArg Except.ok ?_
    rw [List.map_append, still, moved]

/-- Where a token is moved to, so is the line on which it ends. -/
theorem ReachesLine.movesTo (h : ReachesLine p q) (whole : ∀ c ∈ p.getLast?, c = '\n')
    {ts : List Token} (read : tokenize (String.ofList (p ++ q)) = .ok ts) {t : Token}
    (ht : t ∈ ts) : t.MovesTo (.downFrom (lineAfter p)) (t.downFrom (lineAfter p)) := by
  refine Token.movesTo_downFrom fun other => ?_
  obtain ⟨us, s, finish, above, end_le, ahead, first, -⟩ := h.tokenize_eq whole .feed
  have stands := ((inOrder_tokenize (fun g hg => (Glyph.line_of_mem_ofChars hg).2) read).stands
    t ht).first_le
  rw [Token.last, other, if_neg Bool.false_ne_true] at stands
  rw [first] at read
  cases result : s.scan finish with
  | error e =>
    rw [result] at read
    cases read
  | ok vs =>
    rw [result] at read
    cases read
    rcases List.mem_append.1 ht with ht | ht
    · have before := above t ht
      exact iff_of_false (Nat.not_le_of_lt before.pos) (Nat.not_le_of_lt (before.endLine other))
    · have after := (Token.line_le_of_scan ahead end_le).1 vs result t ht
      exact iff_of_true after (Nat.le_trans after stands)

theorem ReachesLine.parse_insert (h : ReachesLine p q) (whole : ∀ c ∈ p.getLast?, c = '\n')
    (blank : IsBlankLine c) :
    parse (String.ofList (p ++ c ++ q)) =
      ((parse (String.ofList (p ++ q))).map (Script.moved (.downFrom (lineAfter p)))).mapError
        (Parser.Error.downFrom (lineAfter p)) := by
  have tokens := h.tokenize_insert whole blank
  cases read : tokenize (String.ofList (p ++ q)) with
  | error e =>
    rw [read] at tokens
    unfold parse
    rw [read, tokens]
    rfl
  | ok ts =>
    rw [read] at tokens
    have moves : (Parser.Cursor.ofTokens ts).MovesTo (.downFrom (lineAfter p)) False
        (.ofTokens (ts.map (Token.downFrom (lineAfter p)))) := by
      obtain ⟨u, us, rfl⟩ : ∃ u us, ts = u :: us := by
        obtain ⟨front, u, rfl, -⟩ := endsOnce_of_tokenize read
        exact List.exists_cons_of_ne_nil (List.concat_ne_nil u front)
      refine ⟨h.movesTo whole read List.mem_cons_self, ?_, False.elim⟩
      refine List.forall₂_map_right_iff.2 (List.forall₂_same.2 fun t ht => ?_)
      exact h.movesTo whole read (List.mem_cons_of_mem u ht)
    have ended : (Parser.Cursor.ofTokens ts).Ended := by
      refine Parser.ended_of_suffix (endsOnce_of_tokenize read) ?_
      rw [Parser.ahead_ofTokens (endsOnce_of_tokenize read)]
    rw [parse_of_tokenize read, parse_of_tokenize tokens, List.length_map]
    rcases Parser.tracked_program (Nat.le_refl _) (topCode + 1) moves ended trivial with
      ⟨r, c', d', first, second, -⟩ | ⟨e, first, second, -⟩
    · rw [first, second]
      rfl
    · rw [first, second]
      rfl

/-- A line that is blank or holds a comment alone is not seen: the tokens, the tree and what goes
wrong are those of the text without it, with what stands after it one line further down. -/
theorem blankLine_unseen (whole : ∀ c ∈ p.getLast?, c = '\n') (reached : ReachesLine p q)
    (blank : IsBlankLine c) :
    tokenize (String.ofList (p ++ c ++ q)) =
      ((tokenize (String.ofList (p ++ q))).map (List.map (Token.downFrom (lineAfter p)))).mapError
        (Token.Error.downFrom (lineAfter p)) ∧
    parse (String.ofList (p ++ c ++ q)) =
      ((parse (String.ofList (p ++ q))).map (Script.moved (.downFrom (lineAfter p)))).mapError
        (Parser.Error.downFrom (lineAfter p)) ∧
    ∀ script, parse (String.ofList (p ++ q)) = .ok script →
      ∃ script', parse (String.ofList (p ++ c ++ q)) = .ok script' ∧
        (Node.script script').codes = (Node.script script).codes ∧
        (Node.script script').countStatements = (Node.script script).countStatements := by
  have parsed := reached.parse_insert whole blank
  refine ⟨reached.tokenize_insert whole blank, parsed, fun script read => ?_⟩
  rw [read] at parsed
  exact ⟨_, parsed, Node.codes_moved (.script script), Node.countStatements_moved (.script script)⟩

theorem blankLine_unseen_comment :
    ReachesLine ['x', '\n'] ['y'] ∧ IsBlankLine ['\t', '#', ' ', 'z', '\n'] ∧
    tokenize "x\n\t# z\ny" =
      ((tokenize "x\ny").map (List.map (Token.downFrom 2))).mapError (Token.Error.downFrom 2) := by
  have reached : ReachesLine ['x', '\n'] ['y'] :=
    ⟨_, _, .snoc (.snoc (.snoc .refl (.begins rfl ⟨by decide, by decide⟩ rfl))
      (.token rfl (by decide) rfl)) (.ends rfl rfl)⟩
  have blank : IsBlankLine (['\t', '#'] ++ [' ', 'z'] ++ ['\n']) :=
    .blank (by decide) (.comment (by decide))
  have whole : ∀ c ∈ ['x', '\n'].getLast?, c = '\n' := fun _ last => (Option.some.inj last).symm
  exact ⟨reached, blank, (blankLine_unseen whole reached blank).1⟩

end

end Footprint
