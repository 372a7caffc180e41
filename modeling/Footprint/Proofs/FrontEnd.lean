import Footprint.Proofs.Gaps
import Footprint.Proofs.LayoutTokens
import Footprint.Proofs.TrackedStatements

set_option autoImplicit false

/-!
The way from a text to a script. It always ends; every parser that gives something has gone ahead
and has not passed the end mark; and whatever goes wrong is reported at a place in the text.
-/

namespace Footprint

open Token

/-! ### Places in a text -/

/-- The position is one in the text: that of a character, or the one after the last character. -/
structure Position.Inside (source : String) (p : Position) : Prop where
  line_pos : 1 ≤ p.line
  line_le : p.line ≤ source.toList.count '\n' + 1
  column_pos : 1 ≤ p.column
  column_le : p.column ≤ ((source.toList.splitOn '\n').getD (p.line - 1) []).length + 1

theorem Position.line_afterAll (p : Position) (cs : List Char) :
    (p.afterAll cs).line = p.line + cs.count '\n' := by
  induction cs generalizing p with
  | nil => rfl
  | cons c cs ih =>
    change ((p.after c).afterAll cs).line = _
    rw [ih]
    by_cases feed : c = '\n'
    · rw [after, if_pos feed, feed, List.count_cons_self]
      exact Nat.add_right_comm _ _ _
    · rw [after, if_neg feed, List.count_cons_of_ne feed]

/-- The column is within the line; the first line begins where the text does. -/
theorem Position.column_afterAll (p : Position) (before after : List Char) :
    (p.afterAll before).column ≤
      (((before ++ after).splitOn '\n').getD (before.count '\n') []).length +
        if before.count '\n' = 0 then p.column else 1 := by
  induction before generalizing p with
  | nil => exact Nat.le_add_left _ _
  | cons c cs ih =>
    have next := ih (p.after c)
    change ((p.after c).afterAll cs).column ≤ _
    by_cases feed : c = '\n'
    · have split : (c :: cs ++ after).splitOn '\n' = [] :: (cs ++ after).splitOn '\n' := by
        rw [feed, List.cons_append, List.splitOn, List.splitOnP_cons_eq_if_modifyHead]
        rfl
      rw [Position.after, if_pos feed, ite_self] at next
      rw [split, feed, List.count_cons_self, List.getD_cons_succ, if_neg (Nat.succ_ne_zero _)]
      rwa [Position.after, if_pos rfl]
    · have split : (c :: cs ++ after).splitOn '\n' =
          ((cs ++ after).splitOn '\n').modifyHead (c :: ·) := by
        rw [List.cons_append, List.splitOn, List.splitOnP_cons_eq_if_modifyHead, if_neg (by simpa)]
        rfl
      rw [Position.after, if_neg feed] at next
      rw [split, List.count_cons_of_ne feed, Position.after, if_neg feed]
      refine Nat.le_trans next ?_
      obtain ⟨first, others, parts⟩ := List.exists_cons_of_ne_nil
        (List.splitOn_ne_nil '\n' (cs ++ after))
      rw [parts, List.modifyHead_cons]
      cases cs.count '\n' with
      | zero => simp [Nat.add_comm, Nat.add_left_comm]
      | succ n => simp

theorem Position.column_pos_afterAll {p : Position} (h : 1 ≤ p.column) (cs : List Char) :
    1 ≤ (p.afterAll cs).column := by
  induction cs generalizing p with
  | nil => exact h
  | cons c cs ih =>
    refine ih ?_
    unfold after
    split
    · exact Nat.le_refl 1
    · exact Nat.le_succ_of_le h

theorem Position.Inside.of_split {source : String} {before after : List Char}
    (split : source.toList = before ++ after) : (start.afterAll before).Inside source := by
  have line : (start.afterAll before).line = 1 + before.count '\n' := line_afterAll start before
  have column := column_afterAll start before after
  have first : start.column = 1 := rfl
  rw [first, ite_self] at column
  refine ⟨by omega, ?_, column_pos_afterAll (Nat.le_refl 1) before, ?_⟩
  · rw [line, split, List.count_append]
    omega
  · rw [line, Nat.add_sub_cancel_left, split]
    exact column

theorem Token.Glyph.pos_of_mem_ofChars {p : Position} {cs : List Char} {g : Glyph}
    (h : g ∈ ofChars p cs) : ∃ before after, cs = before ++ after ∧ g.pos = p.afterAll before := by
  induction cs generalizing p with
  | nil => cases h
  | cons c cs ih =>
    rcases List.mem_cons.1 h with rfl | h
    · exact ⟨[], c :: cs, rfl, rfl⟩
    · obtain ⟨before, after, rfl, pos⟩ := ih h
      exact ⟨c :: before, after, rfl, pos⟩

/-! ### Places of tokens -/

namespace Token

variable {finish : Position} {s s' : Stage} {ts us : List Token} {t : Token}

/-- A token stands where a glyph does that was ahead. -/
theorem Step.pos_of_mem (h : Step finish s ts s') (ht : t ∈ ts) : ∃ g ∈ s.ahead, t.pos = g.pos := by
  cases h with
  | blank | comment | join => cases ht
  | @begins _ _ _ g _ rest _ blank _ indented =>
    refine ⟨g, (suffix_of_margin blank).subset List.mem_cons_self, ?_⟩
    rcases (indentation_eq_ok indented).2 with ⟨-, -, rfl⟩ | ⟨ended, -, rfl⟩
    · rw [List.mem_singleton.1 ht]
    · obtain ⟨column, -, rfl⟩ := List.mem_map.1 ht
      rfl
  | @ends _ isOpen g _ rest blank =>
    refine ⟨g, (suffix_of_blanks blank).subset List.mem_cons_self, ?_⟩
    cases isOpen with
    | false => cases ht
    | true => rw [List.mem_singleton.1 ht]
  | @token _ _ _ g _ rest _ blank =>
    rw [List.mem_singleton.1 ht]
    exact ⟨g, (suffix_of_blanks blank).subset List.mem_cons_self, rfl⟩

theorem Leads.pos_of_mem (h : Leads finish s ts s') (ht : t ∈ ts) :
    ∃ g ∈ s.ahead, t.pos = g.pos := by
  induction h with
  | refl => cases ht
  | snoc leads step ih =>
    rcases List.mem_append.1 ht with ht | ht
    · exact ih ht
    · obtain ⟨g, hg, pos⟩ := step.pos_of_mem ht
      exact ⟨g, leads.suffix.subset hg, pos⟩

theorem Stops.pos_of_mem (h : Stops finish s (.ok us)) (ht : t ∈ us) : t.pos = finish := by
  obtain ⟨m, -, -, rfl⟩ := h.eq_mark_of_mem ht
  rfl

theorem Stops.pos_of_error {e : Error} (h : Stops finish s (.error e)) :
    e.pos = finish ∨ ∃ g ∈ s.ahead, e.pos = g.pos := by
  rcases h.cases_of_error with
    rfl | ⟨column, g, rest, -, blank, -, failed⟩ | ⟨g, rest, blank, -, failed⟩
  · exact .inl rfl
  · obtain rfl := eq_of_indentation_error failed
    exact .inr ⟨g, (suffix_of_margin blank).subset List.mem_cons_self, rfl⟩
  · rcases (read_eq_error failed).1 with pos | pos
    · exact .inr ⟨g, (suffix_of_blanks blank).subset List.mem_cons_self, pos⟩
    · exact .inl pos

end Token

section

variable {source : String} {ts : List Token}

theorem inside_of_mem_ahead {us : List Token} {s : Stage} {g : Glyph}
    (leads : Leads (Position.start.afterAll source.toList) (.start .start source.toList) us s)
    (hg : g ∈ s.ahead) : g.pos.Inside source := by
  obtain ⟨before, after, split, pos⟩ := Glyph.pos_of_mem_ofChars (leads.suffix.subset hg)
  rw [pos]
  exact .of_split split

theorem inside_finish (source : String) :
    (Position.start.afterAll source.toList).Inside source :=
  .of_split (List.append_nil _).symm

theorem inside_of_tokenize_error {e : Token.Error} (h : tokenize source = .error e) :
    e.pos.Inside source := by
  rw [tokenize_eq] at h
  obtain ⟨us, s, leads, stops⟩ := scan_eq_error.1 h
  rcases stops.pos_of_error with pos | ⟨g, hg, pos⟩
  · rw [pos]
    exact inside_finish source
  · rw [pos]
    exact inside_of_mem_ahead leads hg

theorem inside_of_mem_tokenize {t : Token} (h : tokenize source = .ok ts) (ht : t ∈ ts) :
    t.pos.Inside source := by
  rw [tokenize_eq] at h
  obtain ⟨us, s, vs, leads, stops, rfl⟩ := scan_eq_ok h
  rcases List.mem_append.1 ht with ht | ht
  · obtain ⟨g, hg, pos⟩ := leads.pos_of_mem ht
    rw [pos]
    exact inside_of_mem_ahead .refl hg
  · rw [stops.pos_of_mem ht]
    exact inside_finish source

/-- The end mark is the last token and no other. -/
def EndsOnce (ts : List Token) : Prop :=
  ∃ front t, ts = front ++ [t] ∧ t.kind = .mark .endOfFile ∧
    ∀ u ∈ front, u.kind ≠ .mark .endOfFile

theorem endsOnce_of_tokenize (h : tokenize source = .ok ts) : EndsOnce ts := by
  rw [tokenize_eq] at h
  obtain ⟨us, s, vs, leads, stops, rfl⟩ := scan_eq_ok h
  exact (((Stage.Follows.start .start source.toList).leads leads).ends stops).ended

end

namespace Parser

/-! ### Parsers -/

/-- What a parser with the depth `n` does from `c` on. If it gives something, it has passed tokens
but not the end mark; if it fails, then at a place in the text, and not for want of depth if there
is enough for the tokens ahead. -/
structure Proceeds {α : Type} (source : String) (c : Cursor) (n : Nat) (x : Parse α) : Prop where
  passes : ∀ a c', x c = .ok (a, c') → ∃ passed, passed ≠ [] ∧ c.ahead = passed ++ c'.ahead ∧
    ∀ t ∈ passed, t.kind ≠ .mark .endOfFile
  inside : ∀ e, x c = .error e → e.pos.Inside source
  deep : depthFor c.ahead.length ≤ n → ∀ e, x c = .error e → e.fault ≠ .nestingTooDeep

def expressionParsers : List (Nat → Parse Expr) :=
  [testList, test, orTest, andTest, notTest, comparison, arith, term, factor, power, primary, atom,
    targetList]

structure AllProceed (source : String) (c : Cursor) (n : Nat) : Prop where
  expression : ∀ x ∈ expressionParsers, Proceeds source c n (x n)
  smallStatement : Proceeds source c n (smallStatement n)
  simpleStatements : Proceeds source c n (simpleStatements n)
  statement : ∀ code, Proceeds source c n (statement n code)
  definition : ∀ code, Proceeds source c n (definition n code)
  block : ∀ place code, Proceeds source c n (block n place code)

/-- Positions at which a token stands are kept, all others are moved away. What is kept is one at
which a token stands. -/
def keeping (ts : List Token) : Relocation where
  position p := if ∃ t ∈ ts, t.pos = p then p else ⟨p.line + 1, p.column⟩
  line := id

variable {α : Type} {source : String} {ts : List Token} {c : Cursor} {n budget : Nat}

theorem exists_of_kept {p : Position} (h : (keeping ts).position p = p) :
    ∃ t ∈ ts, t.pos = p := by
  by_contra missing
  have moved : (keeping ts).position p = ⟨p.line + 1, p.column⟩ := if_neg missing
  exact Nat.succ_ne_self _ (congrArg Position.line (moved.symm.trans h))

theorem movesTo_keeping (h : c.ahead <:+ ts) : c.MovesTo (keeping ts) False c := by
  have kept {t : Token} (ht : t ∈ c.ahead) : t.MovesTo (keeping ts) t :=
    ⟨rfl, (if_pos ⟨t, h.subset ht, rfl⟩).symm, fun _ => rfl⟩
  refine ⟨kept List.mem_cons_self, ?_, False.elim⟩
  exact List.forall₂_same.2 fun t ht => kept (List.mem_cons_of_mem _ ht)

theorem ended_of_suffix (h : EndsOnce ts) (suffix : c.ahead <:+ ts) : c.Ended := by
  obtain ⟨front, t, rfl, last, -⟩ := h
  obtain ⟨before, split⟩ := suffix
  have some : c.ahead ≠ [] := List.cons_ne_nil _ _
  have same := List.getLast?_append_of_ne_nil before some
  rw [split, List.getLast?_concat] at same
  exact ⟨t, same.symm, last⟩

/-- Only the last token is the end mark. -/
theorem not_ended_of_passed (h : EndsOnce ts) {passed rest : List Token} (some : rest ≠ [])
    (suffix : passed ++ rest <:+ ts) {t : Token} (ht : t ∈ passed) :
    t.kind ≠ .mark .endOfFile := by
  obtain ⟨front, u, rfl, -, others⟩ := h
  obtain ⟨before, split⟩ := suffix
  refine others t ?_
  have same := congrArg List.dropLast split
  rw [List.dropLast_concat, ← List.append_assoc, List.dropLast_append_of_ne_nil some] at same
  rw [← same]
  exact List.mem_append_left _ (List.mem_append_right _ ht)

theorem error_of_tracks {strict : Bool} {g : Relocation → α → α} {x : Parse α}
    (h : tokenize source = .ok ts) (hc : c.ahead <:+ ts)
    (hx : ∀ m, Tracked m False strict budget (g m) x) {e : Error} (failed : x c = .error e) :
    e.pos.Inside source ∧ (20 * c.ahead.length ≤ budget → e.fault ≠ .nestingTooDeep) := by
  have ended := ended_of_suffix (endsOnce_of_tokenize h) hc
  rcases hx (keeping ts) (movesTo_keeping hc) ended trivial with
    ⟨a, c', d', read, -⟩ | ⟨e', first, second, deep⟩
  · cases failed.symm.trans read
  · obtain rfl := Except.error.inj (failed.symm.trans first)
    have kept := congrArg Error.pos (Except.error.inj (first.symm.trans second))
    obtain ⟨t, ht, pos⟩ := exists_of_kept kept.symm
    exact ⟨pos ▸ inside_of_mem_tokenize h ht, deep⟩

theorem proceeds_of_tracks {g : Relocation → α → α} {x : Parse α} (h : tokenize source = .ok ts)
    (hc : c.ahead <:+ ts) (hx : ∀ m, Tracked m False true (n - 14) (g m) x) :
    Proceeds source c n x := by
  have once := endsOnce_of_tokenize h
  refine ⟨fun a c' read => ?_, fun e failed => (error_of_tracks h hc hx failed).1, ?_⟩
  · rcases hx (keeping ts) (movesTo_keeping hc) (ended_of_suffix once hc) trivial with
      ⟨b, c'', d', first, -, -, reaches⟩ | ⟨e, first, -⟩
    · cases read.symm.trans first
      obtain ⟨⟨passed, split⟩, shorter⟩ := reaches
      refine ⟨passed, ?_, split.symm, fun t ht => ?_⟩
      · rintro rfl
        rw [← split] at shorter
        exact Nat.lt_irrefl _ (shorter rfl)
      · exact not_ended_of_passed once (List.cons_ne_nil _ _) (split ▸ hc) ht
    · cases read.symm.trans first
  · intro enough e failed
    refine (error_of_tracks h hc hx failed).2 ?_
    unfold depthFor at enough
    omega

theorem allProceed (h : tokenize source = .ok ts) (hc : c.ahead <:+ ts) (n : Nat) :
    AllProceed source c n where
  expression := by
    intro x hx
    have tracked (m : Relocation) : Tracked m False true (n - 14) (Expr.moved m) (x n) := by
      have all := allTrack m n
      simp only [expressionParsers, List.mem_cons, List.not_mem_nil, or_false] at hx
      rcases hx with
        rfl | rfl | rfl | rfl | rfl | rfl | rfl | rfl | rfl | rfl | rfl | rfl | rfl
      exacts [all.testList (by omega), all.test (by omega), all.orTest (by omega),
        all.andTest (by omega), all.notTest (by omega), all.comparison (by omega),
        all.arith (by omega), all.term (by omega), all.factor (by omega), all.power (by omega),
        all.primary (by omega), all.atom (by omega), tracked_targetList (by omega)]
    exact proceeds_of_tracks h hc tracked
  smallStatement := proceeds_of_tracks h hc fun m => tracked_smallStatement (by omega)
  simpleStatements := proceeds_of_tracks h hc fun m => tracked_simpleStatements (by omega)
  statement code := proceeds_of_tracks h hc fun m => (allTrackOn m n).statement (by omega) code
  definition code := proceeds_of_tracks h hc fun m => (allTrackOn m n).definition (by omega) code
  block place code := proceeds_of_tracks h hc fun m => (allTrackOn m n).block place (by omega) code

section

variable {code : CodeId}

theorem program_end (atEnd : c.front.kind.isMark .endOfFile = true) :
    program (n + 1) code c = .ok (([], code), c) := by
  have looked : program (n + 1) code c =
      (if c.front.kind.isMark .endOfFile = true then pure [] else do
        let first ← statement n
        return first ++ (← program n) : Numbering (List Stmt)) code c := rfl
  rw [looked, if_pos atEnd]
  rfl

theorem program_step (atEnd : c.front.kind.isMark .endOfFile = false) :
    program (n + 1) code c = statement n code c >>= fun r => program n r.1.2 r.2 >>= fun r' =>
      .ok ((r.1.1 ++ r'.1.1, r'.1.2), r'.2) := by
  have looked : program (n + 1) code c =
      (if c.front.kind.isMark .endOfFile = true then pure [] else do
        let first ← statement n
        return first ++ (← program n) : Numbering (List Stmt)) code c := rfl
  rw [looked, atEnd, if_neg Bool.false_ne_true]
  rfl

end

theorem ended_of_program {code : CodeId} {r : List Stmt × CodeId} {c' : Cursor}
    (h : program n code c = .ok (r, c')) : c'.front.kind = .mark .endOfFile := by
  induction n generalizing code c r with
  | zero => cases h
  | succ n ih =>
    cases atEnd : c.front.kind.isMark .endOfFile with
    | true =>
      rw [program_end atEnd] at h
      cases h
      exact Kind.isMark_iff.1 atEnd
    | false =>
      rw [program_step atEnd] at h
      obtain ⟨first, -, h⟩ := ok_of_bind h
      obtain ⟨others, read, h⟩ := ok_of_bind h
      cases h
      exact ih read

/-- What is left when a script has been read. -/
theorem ahead_of_program {code : CodeId} {r : List Stmt × CodeId} {c' : Cursor} (h : EndsOnce ts)
    (hc : c.ahead <:+ ts) (read : program n code c = .ok (r, c')) :
    ∃ t, c'.ahead = [t] ∧ t.kind = .mark .endOfFile := by
  have last := ended_of_program read
  have tracked : TrackedOn (keeping ts) False false 0 (Stmt.movedAll _) (program n) :=
    tracked_program (Nat.zero_le (n - 14))
  rcases tracked code (movesTo_keeping hc) (ended_of_suffix h hc) trivial with
    ⟨a, c'', d', first, -, -, reaches⟩ | ⟨e, first, -⟩
  · cases read.symm.trans first
    refine ⟨c'.front, ?_, last⟩
    cases rest : c'.rest with
    | nil => rw [Cursor.ahead, rest]
    | cons t us =>
      have suffix : [c'.front] ++ t :: us <:+ ts := by
        rw [List.singleton_append, ← rest]
        exact reaches.1.trans hc
      exact absurd last (not_ended_of_passed h (List.cons_ne_nil _ _) suffix List.mem_cons_self)
  · cases read.symm.trans first

theorem ahead_ofTokens (h : EndsOnce ts) : (Cursor.ofTokens ts).ahead = ts := by
  obtain ⟨front, t, rfl, -⟩ := h
  cases front with
  | nil => rfl
  | cons u front => rfl

end Parser

theorem parse_of_tokenize {source : String} {ts : List Token} (h : tokenize source = .ok ts) :
    parse source = (Parser.program (Parser.depthFor ts.length) (topCode + 1)
      (.ofTokens ts)).map fun r => ⟨r.1.1⟩ := by
  unfold parse
  rw [h]
  rfl

/-- The way from a text to a script, as a whole. -/
theorem proceeds_parse (source : String) :
    (∀ e, tokenize source = .error e → e.pos.Inside source) ∧
    (∀ e, parse source = .error e → e.pos.Inside source ∧ e.fault ≠ .nestingTooDeep) ∧
    ∀ ts, tokenize source = .ok ts → EndsOnce ts ∧
      (∀ c : Parser.Cursor, c.ahead <:+ ts → ∀ n, Parser.AllProceed source c n) ∧
      ∀ script, parse source = .ok script → ∃ code c t,
        Parser.program (Parser.depthFor ts.length) (topCode + 1) (.ofTokens ts) =
          .ok ((script.body, code), c) ∧
        c.ahead = [t] ∧ t.kind = .mark .endOfFile := by
  refine ⟨fun e => inside_of_tokenize_error, fun e failed => ?_, fun ts h => ?_⟩
  · cases h : tokenize source with
    | error e' =>
      unfold parse at failed
      rw [h] at failed
      cases failed
      exact ⟨inside_of_tokenize_error h, nofun⟩
    | ok ts =>
      have whole := Parser.ahead_ofTokens (endsOnce_of_tokenize h)
      rw [parse_of_tokenize h] at failed
      cases read : Parser.program (Parser.depthFor ts.length) (topCode + 1) (.ofTokens ts) with
      | ok r =>
        rw [read] at failed
        cases failed
      | error e' =>
        rw [read] at failed
        cases failed
        obtain ⟨inside, deep⟩ := Parser.error_of_tracks h (whole ▸ List.suffix_refl _)
          (fun m => Parser.tracked_program (Nat.le_refl _) _) read
        refine ⟨inside, deep ?_⟩
        rw [whole, Parser.depthFor]
        omega
  · have once := endsOnce_of_tokenize h
    refine ⟨once, fun c hc n => Parser.allProceed h hc n, fun script parsed => ?_⟩
    rw [parse_of_tokenize h] at parsed
    cases read : Parser.program (Parser.depthFor ts.length) (topCode + 1) (.ofTokens ts) with
    | error e =>
      rw [read] at parsed
      cases parsed
    | ok r =>
      rw [read] at parsed
      cases parsed
      have whole := Parser.ahead_ofTokens once
      obtain ⟨t, left, last⟩ := Parser.ahead_of_program once (whole ▸ List.suffix_refl _) read
      exact ⟨r.1.2, r.2, t, rfl, left, last⟩

end Footprint
