import Mathlib.Data.List.Basic
import Footprint.Proofs.ScanSteps
import Footprint.Proofs.SourceLines
import Footprint.Proofs.StoreFunctions

set_option autoImplicit false

/-!
The lines on which tokens stand. The scan goes forward through the text, so no token begins before
the line on which the one before it ends, and a token that is no layout ends on a line that has a
character: its last character is no line feed. A logical line ends its last line: what comes after
it stands on later lines, if it does not only end blocks.
-/

namespace Footprint

namespace Token

/-! ### Where glyphs stand -/

namespace Glyph

/-- Glyphs at the end of a text with so many lines: the lines on which they stand ascend, and the
text goes on to a next line after each line feed and nowhere else. -/
structure Laid (finish : Position) (lines : Nat) (gs : List Glyph) : Prop where
  ascending : gs.Pairwise fun g k => g.pos.line ≤ k.pos.line
  feeds : ∀ g rest, g :: rest <:+ gs → g.char = '\n' → g.pos.line < (here finish rest).line
  le_finish : ∀ g ∈ gs, g.pos.line ≤ finish.line
  le_lines : ∀ g ∈ gs, g.pos.line ≤ lines
  closed : ∀ front g, gs = front ++ [g] → g.char ≠ '\n' → finish.line = g.pos.line

variable {p finish : Position} {lines : Nat} {g : Glyph} {gs rest : List Glyph} {cs : List Char}

theorem here_ofChars (p : Position) (cs : List Char) : here (p.afterAll cs) (ofChars p cs) = p := by
  cases cs with
  | nil => rfl
  | cons c cs => rfl

theorem lt_here_of_feed (suffix : g :: rest <:+ ofChars p cs) (feed : g.char = '\n') :
    g.pos.line < (here (p.afterAll cs) rest).line := by
  induction cs generalizing p with
  | nil => exact absurd (List.suffix_nil.1 suffix) (List.cons_ne_nil _ _)
  | cons c cs ih =>
    rcases List.suffix_cons_iff.1 suffix with same | later
    · obtain ⟨rfl, rfl⟩ := List.cons.inj same
      have next : here (p.afterAll (c :: cs)) (ofChars (p.after c) cs) = p.after c :=
        here_ofChars (p.after c) cs
      rw [next, Position.after, if_pos feed]
      exact Nat.lt_succ_self _
    · exact ih later

theorem laid_ofChars (h : ∀ g ∈ ofChars p cs, g.pos.line ≤ lines) :
    Laid (p.afterAll cs) lines (ofChars p cs) where
  ascending := ascending_ofChars p cs
  feeds _ _ := lt_here_of_feed
  le_finish _ hg := (line_of_mem_ofChars hg).2
  le_lines := h
  closed front g last other := by
    rw [afterAll_of_last last, Position.after, if_neg other]

theorem Laid.of_suffix (h : Laid finish lines gs) (suffix : rest <:+ gs) :
    Laid finish lines rest where
  ascending := h.ascending.sublist suffix.sublist
  feeds g k later := h.feeds g k (later.trans suffix)
  le_finish g hg := h.le_finish g (suffix.mem hg)
  le_lines g hg := h.le_lines g (suffix.mem hg)
  closed front g last := by
    obtain ⟨before, rfl⟩ := suffix
    exact h.closed (before ++ front) g (by rw [last, List.append_assoc])

theorem Laid.here_le (h : Laid finish lines gs) (suffix : rest <:+ gs) :
    (here finish gs).line ≤ (here finish rest).line := by
  cases gs with
  | nil =>
    obtain rfl := List.suffix_nil.1 suffix
    exact Nat.le_refl _
  | cons g gs =>
    cases rest with
    | nil => exact h.le_finish g List.mem_cons_self
    | cons k rest =>
      rcases List.suffix_cons_iff.1 suffix with same | later
      · exact Nat.le_of_eq (by rw [same])
      · exact (List.pairwise_cons.1 h.ascending).1 k (later.mem List.mem_cons_self)

/-- What is passed ends on one of the lines. -/
theorem Laid.closes (h : Laid finish lines gs) (passed : Closes gs rest) :
    (here finish rest).line ≤ lines := by
  cases rest with
  | nil =>
    obtain ⟨taken, last, rfl, other⟩ := passed
    have ends : finish.line = last.pos.line := h.closed taken last rfl other
    change finish.line ≤ lines
    rw [ends]
    exact h.le_lines last (by simp)
  | cons k rest => exact h.le_lines k (passed.suffix.mem List.mem_cons_self)

end Glyph

/-! ### Where tokens stand -/

/-- The last line on which a token stands; layout stands where it begins. -/
def last (t : Token) : Nat := if t.kind.isLayout then t.pos.line else t.endLine

/-- The token ends a block or the text. -/
def EndsBlock (t : Token) : Prop := t.kind = .mark .dedent ∨ t.kind = .mark .endOfFile

/-- After the end of a logical line a token stands on a later line, unless it ends blocks. -/
def Breaks (t u : Token) : Prop :=
  t.kind = .mark .newline → ¬u.EndsBlock → t.pos.line < u.pos.line

structure Stands (lines : Nat) (t : Token) : Prop where
  first_le : t.pos.line ≤ t.last
  last_le : t.kind.isLayout = false → t.last ≤ lines
  unlike_top : t.kind ≠ .name topName

/-- Tokens of a text with so many lines, none of which begins before the line. -/
structure InOrder (lines first : Nat) (ts : List Token) : Prop where
  ascending : ts.Pairwise fun t u => t.last ≤ u.pos.line
  breaks : ts.Pairwise Breaks
  first : ∀ t ∈ ts, first ≤ t.pos.line
  stands : ∀ t ∈ ts, t.Stands lines
  ended : ∃ front t, ts = front ++ [t] ∧ t.kind = .mark .endOfFile

namespace InOrder

variable {lines first first' : Nat} {t : Token} {ls ts : List Token}

theorem mono (h : InOrder lines first ts) (le : first' ≤ first) : InOrder lines first' ts :=
  { h with first := fun t ht => Nat.le_trans le (h.first t ht) }

theorem cons (h : InOrder lines first ts) (stands : t.Stands lines) (before : t.last ≤ first)
    (breaks : ∀ u ∈ ts, t.Breaks u) (le : first' ≤ t.pos.line) :
    InOrder lines first' (t :: ts) where
  ascending := .cons (fun u hu => Nat.le_trans before (h.first u hu)) h.ascending
  breaks := .cons breaks h.breaks
  first u hu := by
    rcases List.mem_cons.1 hu with rfl | hu
    · exact le
    · exact Nat.le_trans le (Nat.le_trans stands.first_le (Nat.le_trans before (h.first u hu)))
  stands u hu := by
    rcases List.mem_cons.1 hu with rfl | hu
    · exact stands
    · exact h.stands u hu
  ended := by
    obtain ⟨front, last, rfl, ended⟩ := h.ended
    exact ⟨t :: front, last, rfl, ended⟩

theorem layout (h : InOrder lines first ts) {m : Mark} {p : Position} {endLine : Nat}
    (layout : m.isLayout = true) (le : first' ≤ p.line) (before : p.line ≤ first)
    (breaks : m = .newline → ∀ u ∈ ts, ¬u.EndsBlock → p.line < u.pos.line) :
    InOrder lines first' (⟨.mark m, p, endLine⟩ :: ts) := by
  have last : Token.last ⟨.mark m, p, endLine⟩ = p.line := if_pos layout
  refine h.cons ⟨Nat.le_of_eq last.symm, fun other => ?_, Kind.noConfusion⟩ ?_
    (fun u hu same => breaks (Kind.mark.inj same) u hu) le
  · exact absurd (layout.symm.trans other) (by decide)
  · rw [last]
    exact before

theorem tail (h : InOrder lines first (t :: ts)) (other : t.kind ≠ .mark .endOfFile) :
    InOrder lines first ts where
  ascending := (List.pairwise_cons.1 h.ascending).2
  breaks := (List.pairwise_cons.1 h.breaks).2
  first u hu := h.first u (List.mem_cons_of_mem _ hu)
  stands u hu := h.stands u (List.mem_cons_of_mem _ hu)
  ended := by
    obtain ⟨front, final, split, ended⟩ := h.ended
    cases front with
    | nil =>
      obtain ⟨rfl, -⟩ := List.cons.inj split
      exact absurd ended other
    | cons u front => exact ⟨front, final, (List.cons.inj split).2, ended⟩

/-- Layout that ends no logical line may stand in front of tokens on its line. -/
theorem layouts (h : InOrder lines first ts)
    (layouts : ∀ t ∈ ls, ∃ m p, t = ⟨.mark m, p, p.line⟩ ∧ m.isLayout = true ∧ m ≠ .newline ∧
      p.line = first) :
    InOrder lines first (ls ++ ts) := by
  induction ls with
  | nil => exact h
  | cons t ls ih =>
    obtain ⟨m, p, rfl, layout, other, line⟩ := layouts t List.mem_cons_self
    have others := ih fun t ht => layouts t (List.mem_cons_of_mem _ ht)
    exact others.layout layout (Nat.le_of_eq line.symm) (Nat.le_of_eq line) fun newline =>
      absurd newline other

end InOrder

theorem inOrder_end (lines : Nat) (p : Position) :
    InOrder lines p.line [⟨.mark .endOfFile, p, p.line⟩] where
  ascending := List.pairwise_singleton _ _
  breaks := List.pairwise_singleton _ _
  first t ht := by
    obtain rfl := List.mem_singleton.1 ht
    exact Nat.le_refl _
  stands t ht := by
    obtain rfl := List.mem_singleton.1 ht
    exact ⟨Nat.le_refl _, Bool.noConfusion, Kind.noConfusion⟩
  ended := ⟨[], _, rfl, rfl⟩


section

variable {finish : Position} {lines : Nat} {s s' : Stage} {ts us : List Token}

/-- A name begins as names do, and so is not what the top level is called. -/
theorem read_ne_topName {depth : Nat} {g : Glyph} {gs : List Glyph} {r : Read}
    (h : read finish depth g gs = .ok r) : r.kind ≠ .name topName := by
  intro named
  rcases read_cases h with ⟨text, -, -, kind, -⟩ | ⟨-, literal, -⟩ | ⟨begins, literal, -⟩ |
    ⟨s, -, kind, -⟩
  · rw [kind] at named
    cases named
  · unfold numberLiteral at literal
    dsimp only at literal
    rw [named] at literal
    split at literal
    · split at literal <;> cases literal
    · cases literal
  · have kind := congrArg Prod.fst literal
    rw [named] at kind
    unfold word wordKind at kind
    dsimp only at kind
    split at kind
    · cases kind
    · have text := Kind.name.inj kind
      have first : g.char = '<' := by
        have chars := congrArg (fun s => s.toList.head?) text
        simpa [topName] using chars
      rw [first] at begins
      exact absurd begins (by decide)
  · rw [kind] at named
    cases named

theorem stands_tokenAt {depth : Nat} {g : Glyph} {gs : List Glyph} {r : Read}
    (laid : Glyph.Laid finish lines (g :: gs)) (hg : g.char ≠ '\n')
    (h : read finish depth g gs = .ok r) :
    (tokenAt finish g r).Stands lines ∧
      (tokenAt finish g r).last ≤ (Glyph.here finish r.rest).line := by
  have closes := closes_read hg h
  have le : g.pos.line ≤ (Glyph.here finish r.rest).line := laid.here_le closes.suffix
  have ends : (tokenAt finish g r).endLine = (Glyph.here finish r.rest).line := Nat.max_eq_left le
  refine ⟨⟨?_, fun other => ?_, read_ne_topName h⟩, ?_⟩
  · unfold last
    split
    · exact Nat.le_refl _
    · rw [ends]
      exact le
  · unfold last
    rw [other, if_neg Bool.false_ne_true, ends]
    exact laid.closes closes
  · unfold last
    split
    · exact le
    · exact Nat.le_of_eq ends

theorem Stops.inOrder (h : Stops finish s (.ok ts)) : InOrder lines finish.line ts := by
  obtain ⟨-, rfl⟩ := h.eq_of_ok
  have dedents : InOrder lines finish.line
      (s.columns.map (fun _ => (⟨.mark .dedent, finish, finish.line⟩ : Token)) ++
        [⟨.mark .endOfFile, finish, finish.line⟩]) := by
    apply (inOrder_end lines finish).layouts
    intro t ht
    obtain ⟨_, -, rfl⟩ := List.mem_map.1 ht
    exact ⟨.dedent, finish, rfl, rfl, by decide, rfl⟩
  rw [List.append_assoc]
  cases s.isOpen with
  | true =>
    refine dedents.layout rfl (Nat.le_refl _) (Nat.le_refl _) fun _ u hu open_ => ?_
    rcases List.mem_append.1 hu with hu | hu
    · obtain ⟨_, -, rfl⟩ := List.mem_map.1 hu
      exact absurd (.inl rfl) open_
    · rw [List.mem_singleton.1 hu] at open_
      exact absurd (.inr rfl) open_
  | false => exact dedents

theorem Step.inOrder (h : Step finish s us s') (laid : Glyph.Laid finish lines s.ahead)
    (others : InOrder lines (Glyph.here finish s'.ahead).line ts) :
    InOrder lines (Glyph.here finish s.ahead).line (us ++ ts) := by
  have le := laid.here_le h.suffix
  cases h with
  | blank | comment | join => exact others.mono le
  | begins blank text indented =>
    refine (others.layouts fun t ht => ?_).mono le
    obtain ⟨m, rfl, layout, other⟩ := indentation_layout indented t ht
    exact ⟨m, _, rfl, layout, other, rfl⟩
  | @ends columns isOpen g gs rest blank feed =>
    have suffix : g :: rest <:+ gs := suffix_of_blanks blank
    have later : g.pos.line < (Glyph.here finish rest).line :=
      (laid.of_suffix suffix).feeds g rest (List.suffix_refl _) feed
    cases isOpen with
    | true =>
      exact others.layout rfl (laid.here_le suffix) (Nat.le_of_lt later) fun _ u hu _ =>
        Nat.lt_of_lt_of_le later (others.first u hu)
    | false => exact others.mono le
  | @token columns depth isOpen g gs rest r blank other found =>
    have suffix : g :: rest <:+ gs := suffix_of_blanks blank
    obtain ⟨stands, before⟩ := stands_tokenAt (laid.of_suffix suffix) other found
    have text : (tokenAt finish g r).kind ≠ .mark .newline :=
      Kind.ne_mark_of_isLayout (isLayout_read found) rfl
    exact others.cons stands before (fun _ _ newline => absurd newline text) (laid.here_le suffix)

theorem inOrder_scan (h : s.scan finish = .ok ts) :
    Glyph.Laid finish lines s.ahead → InOrder lines (Glyph.here finish s.ahead).line ts := by
  refine scan_induction (fun s vs stops laid => ?_) (fun s us s' vs step ih laid => ?_) h
  · exact stops.inOrder.mono (laid.here_le List.nil_suffix)
  · exact step.inOrder laid (ih (laid.of_suffix step.suffix))

end

end Token

/-- The tokens of a text are in order. -/
theorem inOrder_tokenize {source : String} {ts : List Token} {lines : Nat}
    (within : ∀ g ∈ Token.Glyph.ofChars .start source.toList, g.pos.line ≤ lines)
    (h : tokenize source = .ok ts) : Token.InOrder lines 1 ts := by
  rw [tokenize_eq] at h
  apply (Token.inOrder_scan h (Token.Glyph.laid_ofChars within)).mono
  change 1 ≤ (Token.Glyph.here _ (Token.Glyph.ofChars .start source.toList)).line
  rw [Token.Glyph.here_ofChars]
  exact Nat.le_refl 1

end Footprint
