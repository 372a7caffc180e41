import Mathlib.Data.List.Basic
import Footprint.Proofs.GrammarSoundness
import Footprint.Proofs.Lexemes
import Footprint.Proofs.ScanSteps

set_option autoImplicit false

/-!
The layout of a text in its tokens. Indents and dedents are nested like brackets and stand outside
of all brackets, a newline ends a line that has something in it, and the end mark is the last token.
The columns of the open blocks ascend, and a line that goes back to none of them is the one fault of
indentation.
-/

namespace Footprint.Token

/-! ### Counting -/

namespace Kind

def opens : Kind → Bool
  | mark (.symbol .openParen) | mark (.symbol .openBracket) => true
  | _ => false

def closes : Kind → Bool
  | mark (.symbol .closeParen) | mark (.symbol .closeBracket) => true
  | _ => false

/-- The depth of brackets goes up at an opening bracket and down at a closing one. -/
theorem depth_add_opens {k : Kind} {depth depth' : Nat} (h : k.depthAfter? depth = some depth') :
    depth + k.opens.toNat = depth' + k.closes.toNat := by
  have still (same : some depth = some depth') : depth = depth' := Option.some.inj same
  cases k with
  | mark m =>
    cases m with
    | symbol s =>
      cases s with
      | openParen | openBracket => exact Option.some.inj h
      | closeParen | closeBracket =>
        cases depth with
        | zero => cases h
        | succ depth => exact congrArg (· + 1) (Option.some.inj h)
      | _ => exact still h
    | _ => exact still h
  | _ => exact still h

end Kind

/-- How many of the tokens are of such a kind. -/
def counted (f : Kind → Bool) (ts : List Token) : Nat := ts.countP (f ·.kind)

section

variable (f : Kind → Bool)

@[simp]
theorem counted_nil : counted f [] = 0 := rfl

@[simp]
theorem counted_append (ts us : List Token) :
    counted f (ts ++ us) = counted f ts + counted f us := List.countP_append

@[simp]
theorem counted_singleton (t : Token) : counted f [t] = (f t.kind).toNat := by
  unfold counted
  rw [List.countP_singleton]
  cases f t.kind <;> rfl

theorem counted_map_const {α : Type} (as : List α) (t : Token) :
    counted f (as.map fun _ => t) = as.length * (f t.kind).toNat := by
  induction as with
  | nil => rw [List.map_nil, counted_nil, List.length_nil, Nat.zero_mul]
  | cons a as ih =>
    rw [List.map_cons, ← List.singleton_append, counted_append, counted_singleton, ih,
      List.length_cons, Nat.add_mul, Nat.one_mul, Nat.add_comm]

end

/-! ### Tokens in layout -/

/-- Of the tokens from the first on: no dedent lacks an indent, none of both stands within brackets,
and a newline stands after a token that is none. -/
structure LaidOut (ts : List Token) : Prop where
  nested : ∀ front, front <+: ts →
    counted (Kind.isMark .dedent) front ≤ counted (Kind.isMark .indent) front
  outside : ∀ front t, front ++ [t] <+: ts → t.kind = .mark .indent ∨ t.kind = .mark .dedent →
    counted Kind.opens front = counted Kind.closes front
  newlines : ∀ front t, front ++ [t] <+: ts → t.kind = .mark .newline →
    ∃ u ∈ front.getLast?, u.kind ≠ .mark .newline

/-- The tokens of a whole text: each block is closed, and the end mark is the last token and stands
nowhere else. -/
structure WhollyLaidOut (ts : List Token) : Prop extends LaidOut ts where
  balanced : counted (Kind.isMark .indent) ts = counted (Kind.isMark .dedent) ts
  ended : ∃ front t, ts = front ++ [t] ∧ t.kind = .mark .endOfFile ∧
    ∀ u ∈ front, u.kind ≠ .mark .endOfFile

namespace LaidOut

variable {ts : List Token} {t : Token}

theorem nil : LaidOut [] where
  nested front h := by rw [List.prefix_nil.1 h]; exact Nat.le_refl 0
  outside front t h := absurd (List.prefix_nil.1 h) (by simp)
  newlines front t h := absurd (List.prefix_nil.1 h) (by simp)

theorem snoc (h : LaidOut ts)
    (closing : t.kind = .mark .dedent →
      counted (Kind.isMark .dedent) ts < counted (Kind.isMark .indent) ts)
    (outer : t.kind = .mark .indent ∨ t.kind = .mark .dedent →
      counted Kind.opens ts = counted Kind.closes ts)
    (after : t.kind = .mark .newline → ∃ u ∈ ts.getLast?, u.kind ≠ .mark .newline) :
    LaidOut (ts ++ [t]) where
  nested front hp := by
    rcases List.prefix_concat_iff.1 hp with rfl | hp
    · have before := h.nested ts (List.prefix_refl ts)
      rw [counted_append, counted_append, counted_singleton, counted_singleton]
      cases dedent : t.kind.isMark .dedent with
      | false => exact Nat.le_add_right_of_le before
      | true =>
        have less := closing (Kind.isMark_iff.1 dedent)
        exact Nat.le_add_right_of_le less
    · exact h.nested front hp
  outside front u hp block := by
    rcases List.prefix_concat_iff.1 hp with same | hp
    · obtain ⟨rfl, last⟩ := List.append_inj' same rfl
      obtain rfl := List.singleton_inj.1 last
      exact outer block
    · exact h.outside front u hp block
  newlines front u hp newline := by
    rcases List.prefix_concat_iff.1 hp with same | hp
    · obtain ⟨rfl, last⟩ := List.append_inj' same rfl
      obtain rfl := List.singleton_inj.1 last
      exact after newline
    · exact h.newlines front u hp newline

/-- Blocks are closed outside of brackets, as many as there are at most. -/
theorem dedented (h : LaidOut ts) {p : Position} (columns : List Nat)
    (enough : counted (Kind.isMark .dedent) ts + columns.length ≤ counted (Kind.isMark .indent) ts)
    (outer : counted Kind.opens ts = counted Kind.closes ts) :
    LaidOut (ts ++ columns.map fun _ => ⟨.mark .dedent, p, p.line⟩) := by
  induction columns generalizing ts with
  | nil => simpa using h
  | cons column columns ih =>
    rw [List.length_cons] at enough
    rw [List.map_cons, List.append_cons]
    apply ih (h.snoc (fun _ => by omega) (fun _ => outer) (by simp))
    · simp only [counted_append, counted_singleton, Kind.isMark]
      simp only [decide_true, Bool.toNat_true, reduceCtorEq, decide_false, Bool.toNat_false]
      omega
    · simpa [Kind.opens, Kind.closes] using outer

end LaidOut

/-! ### Indentation -/

/-- A line is not indented as any open block is if and only if it goes back between them. -/
theorem indentation_eq_error {columns : List Nat} {column : Nat} {p : Position} {e : Error}
    (ascending : (0 :: columns.reverse).Pairwise (· < ·)) :
    indentation columns column p = .error e ↔
      column < columns.headD 0 ∧ column ∉ 0 :: columns.reverse ∧ e = ⟨.unalignedUnindent, p⟩ := by
  obtain ⟨positive, sorted⟩ := List.pairwise_cons.1 ascending
  have descending := List.pairwise_reverse.1 sorted
  have top : columns.headD 0 ∈ 0 :: columns.reverse := by
    cases columns with
    | nil => exact List.mem_cons_self
    | cons c cs => simp
  -- of the blocks that stay open the innermost one is at the column, if one is
  have kept :
      (columns.dropWhile (column < ·)).headD 0 = column ↔ column ∈ 0 :: columns.reverse := by
    rw [List.mem_cons, List.mem_reverse]
    clear top sorted ascending
    induction columns with
    | nil => simp [eq_comm]
    | cons c cs ih =>
      obtain ⟨less, descending⟩ := List.pairwise_cons.1 descending
      have ih := ih (fun a ha => positive a (by simpa using .inl (by simpa using ha))) descending
      by_cases deeper : column < c
      · simp only [List.dropWhile_cons, deeper, decide_true, if_true, List.mem_cons, ih]
        have other : column ≠ c := Nat.ne_of_lt deeper
        simp [other]
      · have pos : 0 < c := positive c (by simp)
        simp only [List.dropWhile_cons, deeper, decide_false, Bool.false_eq_true, if_false,
          List.headD_cons, List.mem_cons]
        constructor
        · exact fun same => .inr (.inl same.symm)
        · rintro (none | same | later)
          · omega
          · exact same.symm
          · exact absurd (less column later) deeper
  unfold indentation
  rw [closedBy_eq]
  dsimp only
  split
  · next deeper => exact ⟨nofun, fun back => absurd deeper (Nat.lt_asymm back.1)⟩
  · next shallow =>
    split
    · next same => exact ⟨nofun, fun back => absurd (kept.1 same) back.2.1⟩
    · next other =>
      have missing := fun found => other (kept.2 found)
      have less : column < columns.headD 0 := by
        rcases Nat.lt_or_eq_of_le (Nat.le_of_not_lt shallow) with less | same
        · exact less
        · exact absurd (same ▸ top) missing
      constructor
      · rintro ⟨⟩
        exact ⟨less, missing, rfl⟩
      · rintro ⟨-, -, rfl⟩
        rfl

/-! ### Stages -/

namespace Stage

/-- The columns at which lines may stand, that of the text itself first. -/
def stack (s : Stage) : List Nat := 0 :: s.columns.reverse

theorem getLast?_stack (s : Stage) : s.stack.getLast? = some (s.columns.headD 0) := by
  obtain ⟨columns, spot, ahead⟩ := s
  cases columns with
  | nil => rfl
  | cons c cs => simp [stack, List.getLast?_cons]

/-- The tokens that have been given agree with what the stage knows. -/
structure Follows (s : Stage) (ts : List Token) : Prop where
  laidOut : LaidOut ts
  unended : ∀ t ∈ ts, t.kind ≠ .mark .endOfFile
  blocks : counted (Kind.isMark .indent) ts = counted (Kind.isMark .dedent) ts + s.columns.length
  brackets : counted Kind.opens ts = counted Kind.closes ts + s.depth
  ascending : s.stack.Pairwise (· < ·)
  line_ended : s.isOpen = false → ∀ t ∈ ts.getLast?, t.kind = .mark .newline
  line_open : s.isOpen = true → ∃ t ∈ ts.getLast?, t.kind ≠ .mark .newline

end Stage

variable {finish : Position} {s s' : Stage} {ts us : List Token}

namespace Stage.Follows

theorem start (p : Position) (cs : List Char) : (Stage.start p cs).Follows [] where
  laidOut := .nil
  unended := nofun
  blocks := rfl
  brackets := rfl
  ascending := List.pairwise_singleton _ _
  line_ended _ := nofun
  line_open := nofun

/-- The indentation of a line opens one block or closes some. -/
theorem begins {columns columns' : List Nat} {column : Nat} {gs gs' : List Glyph} {p : Position}
    {layout : List Token} (h : Follows ⟨columns, .lineStart, gs⟩ ts)
    (indented : indentation columns column p = .ok (layout, columns')) :
    Follows ⟨columns', .within 0 (!layout.isEmpty), gs'⟩ (ts ++ layout) := by
  obtain ⟨laidOut, unended, blocks, brackets, ascending, line_ended, -⟩ := h
  have outer : counted Kind.opens ts = counted Kind.closes ts := brackets
  dsimp only at blocks
  rcases (indentation_eq_ok indented).2 with ⟨deeper, rfl, rfl⟩ | ⟨ended, rfl, rfl⟩
  · refine ⟨laidOut.snoc (by simp) (fun _ => outer) (by simp), ?_, ?_, ?_, ?_, by simp [isOpen],
      fun _ => ?_⟩
    · simpa [or_imp, forall_and] using unended
    · simp [Kind.isMark, blocks, Nat.add_assoc]
    · simpa [Kind.opens, Kind.closes, depth] using outer
    · have below : ∀ c ∈ 0 :: columns.reverse, c < column := by
        intro c hc
        have highest := getLast?_stack ⟨columns, .lineStart, gs⟩
        obtain ⟨lower, same⟩ := List.getLast?_eq_some_iff.1 highest
        rw [stack] at same ascending
        rw [same] at hc ascending
        rcases List.mem_append.1 hc with hc | hc
        · have less := (List.pairwise_append.1 ascending).2.2 c hc _ (List.mem_singleton.2 rfl)
          exact Nat.lt_trans less deeper
        · rw [List.mem_singleton.1 hc]
          exact deeper
      simp only [stack, List.reverse_cons]
      rw [← List.cons_append]
      refine List.pairwise_append.2 ⟨ascending, List.pairwise_singleton _ _, fun c hc d hd => ?_⟩
      rw [List.mem_singleton.1 hd]
      exact below c hc
    · exact ⟨⟨.mark .indent, p, p.line⟩, by simp, by simp⟩
  · have enough :
        counted (Kind.isMark .dedent) ts + ended.length ≤ counted (Kind.isMark .indent) ts := by
      rw [blocks, List.length_append]
      omega
    refine ⟨laidOut.dedented ended enough outer, ?_, ?_, ?_, ?_, fun none => ?_, fun some => ?_⟩
    · simpa [or_imp, forall_and] using unended
    · simp only [counted_append, counted_map_const, Kind.isMark, decide_true, reduceCtorEq,
        decide_false, Bool.toNat_true, Bool.toNat_false, blocks, List.length_append]
      omega
    · simpa [counted_map_const, Kind.opens, Kind.closes, depth, -List.map_const'] using outer
    · simp only [stack, List.reverse_append] at ascending ⊢
      rw [← List.cons_append] at ascending
      exact (List.pairwise_append.1 ascending).1
    · -- no block is closed
      obtain rfl : ended = [] := by simpa [isOpen] using none
      simpa using line_ended rfl
    · obtain ⟨front, last, rfl⟩ : ∃ front last, ended = front ++ [last] := by
        refine ⟨_, _, (List.dropLast_append_getLast (l := ended) ?_).symm⟩
        rintro rfl
        cases some
      exact ⟨⟨.mark .dedent, p, p.line⟩, by simp, by simp⟩

/-- What the tokens say of the stage is kept by each step. -/
theorem step (h : s.Follows ts) (step : Step finish s us s') : s'.Follows (ts ++ us) := by
  cases step with
  | blank | comment | join =>
    rw [List.append_nil]
    exact ⟨h.laidOut, h.unended, h.blocks, h.brackets, h.ascending, h.line_ended, h.line_open⟩
  | begins _ _ indented => exact h.begins indented
  | @ends columns isOpen g gs rest =>
    cases isOpen with
    | false =>
      rw [if_neg Bool.false_ne_true, List.append_nil]
      exact ⟨h.laidOut, h.unended, h.blocks, h.brackets, h.ascending, h.line_ended,
        by simp [isOpen]⟩
    | true =>
      rw [if_pos rfl]
      refine ⟨h.laidOut.snoc (by simp) (by simp) fun _ => h.line_open rfl, ?_, ?_, ?_,
        h.ascending, fun _ => by simp, by simp [isOpen]⟩
      · simpa [or_imp, forall_and] using h.unended
      · simpa [Kind.isMark] using h.blocks
      · simpa [Kind.opens, Kind.closes, Stage.depth] using h.brackets
  | @token columns depth isOpen g gs rest r _ _ found =>
    have text := isLayout_read found
    have other {m : Mark} (layout : m.isLayout = true) : r.kind ≠ .mark m :=
      Kind.ne_mark_of_isLayout text layout
    have unlike {m : Mark} (layout : m.isLayout = true) : r.kind.isMark m = false :=
      Bool.eq_false_iff.2 fun same => other layout (Kind.isMark_iff.1 same)
    refine ⟨h.laidOut.snoc (fun dedent => absurd dedent (other rfl)) ?_
      (fun newline => absurd newline (other rfl)), ?_, ?_, ?_, h.ascending, by simp [Stage.isOpen],
      fun _ => ?_⟩
    · exact fun block => absurd block (not_or.2 ⟨other rfl, other rfl⟩)
    · simpa [or_imp, forall_and] using ⟨h.unended, other rfl⟩
    · simpa [tokenAt, unlike (m := .indent) rfl, unlike (m := .dedent) rfl] using h.blocks
    · have before : counted Kind.opens ts = counted Kind.closes ts + depth := h.brackets
      have balance := Kind.depth_add_opens (depth_of_read found)
      simp only [counted_append, counted_singleton, tokenAt, Stage.depth]
      omega
    · exact ⟨tokenAt finish g r, by simp, other rfl⟩

theorem leads (h : s.Follows ts) (leads : Leads finish s us s') : s'.Follows (ts ++ us) := by
  induction leads with
  | refl => rwa [List.append_nil]
  | snoc _ step ih =>
    rw [← List.append_assoc]
    exact ih.step step

/-- At the end of the text the last line and all blocks are closed. -/
theorem ends (h : s.Follows ts) (stops : Stops finish s (.ok us)) : WhollyLaidOut (ts ++ us) := by
  obtain ⟨outside, rfl⟩ := stops.eq_of_ok
  have outer : counted Kind.opens ts = counted Kind.closes ts := by
    rw [h.brackets, outside, Nat.add_zero]
  -- the tokens up to the end of the last line
  obtain ⟨ts', same, laidOut, blocks, outer, unended⟩ : ∃ ts',
      ts' = ts ++ (if s.isOpen then [⟨.mark .newline, finish, finish.line⟩] else []) ∧
      LaidOut ts' ∧
      counted (Kind.isMark .indent) ts' = counted (Kind.isMark .dedent) ts' + s.columns.length ∧
      counted Kind.opens ts' = counted Kind.closes ts' ∧
      ∀ t ∈ ts', t.kind ≠ .mark .endOfFile := by
    refine ⟨_, rfl, ?_⟩
    cases isOpen : s.isOpen with
    | false => simpa using ⟨h.laidOut, h.blocks, outer, h.unended⟩
    | true =>
      refine ⟨h.laidOut.snoc (by simp) (by simp) fun _ => h.line_open isOpen, ?_, ?_, ?_⟩
      · simpa [Kind.isMark] using h.blocks
      · simpa [Kind.opens, Kind.closes] using outer
      · simpa [or_imp, forall_and] using h.unended
  rw [← List.append_assoc, ← List.append_assoc, ← same]
  have dedented := laidOut.dedented (p := finish) s.columns (Nat.le_of_eq blocks.symm) outer
  refine ⟨dedented.snoc (by simp) (by simp) (by simp), ?_, _, _, rfl, rfl, ?_⟩
  · simp [Kind.isMark, counted_map_const, blocks, -List.map_const']
  · simpa [or_imp, forall_and] using unended

end Stage.Follows

/-- A line that goes back to no open block is what is reported as such. -/
theorem Stops.unaligned_iff {p : Position} (ascending : s.stack.Pairwise (· < ·)) :
    Stops finish s (.error ⟨.unalignedUnindent, p⟩) ↔
      s.spot = .lineStart ∧ ∃ column g rest, margin 0 s.ahead = (column, g :: rest) ∧
        BeginsText g.char ∧ g.pos = p ∧ column < s.columns.headD 0 ∧ column ∉ s.stack := by
  constructor
  · intro stops
    rcases stops.cases_of_error with
      bracket | ⟨column, g, rest, begins, blank, text, failed⟩ | ⟨g, rest, -, -, failed⟩
    · cases bracket
    · obtain ⟨less, missing, same⟩ := (indentation_eq_error ascending).1 failed
      cases same
      exact ⟨begins, column, g, rest, blank, text, rfl, less, missing⟩
    · exact absurd rfl (read_eq_error failed).2
  · obtain ⟨columns, spot, gs⟩ := s
    rintro ⟨rfl, column, g, rest, blank, text, rfl, less, missing⟩
    exact .unaligned blank text ((indentation_eq_error ascending).2 ⟨less, missing, rfl⟩)

/-- A logical line begins at the column of the innermost open block. -/
theorem Step.margin_eq (h : Step finish s ts s') (begins : s.spot = .lineStart)
    (inside : s'.spot ≠ .lineStart) : s'.stack.getLast? = some (margin 0 s.ahead).1 := by
  rw [Stage.getLast?_stack]
  cases h with
  | blank | comment => exact absurd rfl inside
  | begins blank _ indented => rw [(indentation_eq_ok indented).1, blank]
  | join | ends | token => cases begins

end Footprint.Token

namespace Footprint

open Token

/-- The layout of a text. Its tokens are laid out; the columns of the open blocks ascend from zero
at each stage of the scan; a logical line begins at the last of them; and the scan fails over the
indentation if and only if some line begins before the last of them and at none. -/
theorem laidOut_tokenize (source : String) :
    let leads := Leads (Position.start.afterAll source.toList) (.start .start source.toList)
    (∀ ts, tokenize source = .ok ts → WhollyLaidOut ts) ∧
    (∀ ts s, leads ts s → s.stack.Pairwise (· < ·)) ∧
    (∀ ts s us s', leads ts s → Step (Position.start.afterAll source.toList) s us s' →
      s.spot = .lineStart → s'.spot ≠ .lineStart →
      s'.stack.getLast? = some (margin 0 s.ahead).1) ∧
    ∀ p, tokenize source = .error ⟨.unalignedUnindent, p⟩ ↔
      ∃ ts s column g rest, leads ts s ∧ s.spot = .lineStart ∧
        margin 0 s.ahead = (column, g :: rest) ∧ BeginsText g.char ∧ g.pos = p ∧
        column < s.columns.headD 0 ∧ column ∉ s.stack := by
  intro leads
  have follows {ts : List Token} {s : Stage} (h : leads ts s) : s.Follows ts :=
    (Stage.Follows.start .start source.toList).leads h
  refine ⟨fun ts h => ?_, fun ts s h => (follows h).ascending,
    fun ts s us s' _ step => step.margin_eq, fun p => ?_⟩
  · rw [tokenize_eq] at h
    obtain ⟨us, s, vs, reached, stops, rfl⟩ := scan_eq_ok h
    exact (follows reached).ends stops
  · rw [tokenize_eq, scan_eq_error]
    constructor
    · rintro ⟨ts, s, reached, stops⟩
      obtain ⟨begins, column, g, rest, unaligned⟩ :=
        (Stops.unaligned_iff (follows reached).ascending).1 stops
      exact ⟨ts, s, column, g, rest, reached, begins, unaligned⟩
    · rintro ⟨ts, s, column, g, rest, reached, begins, unaligned⟩
      refine ⟨ts, s, reached, (Stops.unaligned_iff (follows reached).ascending).2 ?_⟩
      exact ⟨begins, column, g, rest, unaligned⟩

end Footprint
