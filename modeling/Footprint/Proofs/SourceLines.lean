import Footprint.Text.Blank
import Footprint.Text.Lines
import Footprint.Token.Glyph

set_option autoImplicit false

/-!
The lines of a text as they are listed are those on which its glyphs stand: a line is the text that
stands on it, the blanks at its end aside, and no glyph stands after the last line.
-/

namespace Footprint

open Token

/-! ### Where glyphs stand -/

namespace Token.Glyph

/-- What stands on a line, its end included. -/
def onLine (gs : List Glyph) (n : Nat) : List Char := (gs.filter (·.pos.line = n)).map char

variable {p : Position} {cs : List Char} {g : Glyph}

theorem line_le_after (p : Position) (c : Char) : p.line ≤ (p.after c).line := by
  unfold Position.after
  split
  · exact Nat.le_succ _
  · exact Nat.le_refl _

theorem line_le_afterAll (p : Position) (cs : List Char) : p.line ≤ (p.afterAll cs).line := by
  induction cs generalizing p with
  | nil => exact Nat.le_refl _
  | cons c cs ih => exact Nat.le_trans (line_le_after p c) (ih (p.after c))

theorem line_of_mem_ofChars (h : g ∈ ofChars p cs) :
    p.line ≤ g.pos.line ∧ g.pos.line ≤ (p.afterAll cs).line := by
  induction cs generalizing p with
  | nil => cases h
  | cons c cs ih =>
    rcases List.mem_cons.1 h with rfl | h
    · exact ⟨Nat.le_refl _, line_le_afterAll p (c :: cs)⟩
    · obtain ⟨first, last⟩ := ih h
      exact ⟨Nat.le_trans (line_le_after p c) first, last⟩

theorem ascending_ofChars (p : Position) (cs : List Char) :
    (ofChars p cs).Pairwise fun g k => g.pos.line ≤ k.pos.line := by
  induction cs generalizing p with
  | nil => exact .nil
  | cons c cs ih =>
    refine .cons (fun k hk => ?_) (ih _)
    exact Nat.le_trans (line_le_after p c) (line_of_mem_ofChars hk).1

theorem afterAll_of_last {front : List Glyph} (h : ofChars p cs = front ++ [g]) :
    p.afterAll cs = g.pos.after g.char := by
  induction cs generalizing p front with
  | nil =>
    have none := congrArg List.length h
    simp [ofChars] at none
  | cons c cs ih =>
    cases front with
    | nil =>
      obtain ⟨rfl, none⟩ := List.cons.inj h
      cases cs with
      | nil => rfl
      | cons d cs => cases none
    | cons k front => exact ih (List.cons.inj h).2

theorem onLine_cons (g : Glyph) (gs : List Glyph) (n : Nat) :
    onLine (g :: gs) n = (if g.pos.line = n then [g.char] else []) ++ onLine gs n := by
  unfold onLine
  by_cases h : g.pos.line = n
  · simp [h]
  · simp [h]

theorem onLine_eq_nil {n : Nat} (h : n < p.line) : onLine (ofChars p cs) n = [] := by
  unfold onLine
  rw [List.map_eq_nil_iff, List.filter_eq_nil_iff]
  intro g hg same
  have first := (line_of_mem_ofChars hg).1
  rw [decide_eq_true_iff] at same
  omega

end Token.Glyph

open Glyph

/-! ### The lines of a text -/

namespace Text

variable {l : List Char} {c : Char}

theorem trimEnd_concat (hc : isBlank c = true) : trimEnd (l ++ [c]) = trimEnd l := by
  simp [trimEnd, hc]

theorem trimEnd_chomp (l : List Char) : trimEnd (chomp l) = trimEnd l := by
  unfold chomp
  split
  · next h =>
    obtain ⟨front, rfl⟩ := List.getLast?_eq_some_iff.1 h
    rw [List.dropLast_concat]
    exact (trimEnd_concat (by decide)).symm
  · rfl

theorem length_linesFrom_pos {line : List Char} (cs : List Char) (h : line ≠ []) :
    0 < (linesFrom line cs).length := by
  induction cs generalizing line with
  | nil =>
    unfold linesFrom
    rw [if_neg (by simpa using h)]
    exact Nat.one_pos
  | cons c cs ih =>
    unfold linesFrom
    split
    · exact Nat.succ_pos _
    · exact ih (List.cons_ne_nil _ _)

/-- No glyph stands after the last line. -/
theorem line_lt_of_mem {g : Glyph} {p : Position} {cs : List Char} (h : g ∈ ofChars p cs)
    (line : List Char) :
    g.pos.line < p.line + (linesFrom line cs).length := by
  induction cs generalizing p line with
  | nil => cases h
  | cons c cs ih =>
    unfold linesFrom
    by_cases feed : c = '\n'
    · have next : (p.after c).line = p.line + 1 := by rw [Position.after, if_pos feed]
      rw [if_pos feed, List.length_cons]
      rcases List.mem_cons.1 h with rfl | h
      · exact Nat.lt_add_of_pos_right (Nat.succ_pos _)
      · have later := ih h []
        rw [next] at later
        omega
    · have next : (p.after c).line = p.line := by rw [Position.after, if_neg feed]
      rw [if_neg feed]
      rcases List.mem_cons.1 h with rfl | h
      · exact Nat.lt_add_of_pos_right (length_linesFrom_pos cs (List.cons_ne_nil _ _))
      · have later := ih h (c :: line)
        rwa [next] at later

/-- The lines from some characters on, the first one being that of which some has been read. -/
theorem getD_linesFrom (p : Position) (line cs : List Char) (i : Nat) :
    trimEnd ((linesFrom line cs)[i]?.getD []) =
      trimEnd ((if i = 0 then line.reverse else []) ++ onLine (ofChars p cs) (p.line + i)) := by
  induction cs generalizing p line i with
  | nil =>
    have none : onLine (ofChars p []) (p.line + i) = [] := rfl
    rw [none, List.append_nil]
    unfold linesFrom
    cases i with
    | zero => cases line <;> rfl
    | succ i => split <;> rfl
  | cons c cs ih =>
    rw [ofChars, onLine_cons]
    unfold linesFrom
    by_cases feed : c = '\n'
    · have next : (p.after c).line = p.line + 1 := by rw [Position.after, if_pos feed]
      rw [if_pos feed]
      cases i with
      | zero =>
        have others : onLine (ofChars (p.after c) cs) p.line = [] := by
          apply onLine_eq_nil
          rw [next]
          exact Nat.lt_succ_self _
        have whole := trimEnd_concat (l := line.reverse) (c := c) (by rw [feed]; decide)
        simp [others, trimEnd_chomp, whole]
      | succ i =>
        have later := ih (p.after c) [] i
        have other : ¬ p.line = p.line + (i + 1) := by omega
        have same : p.line + 1 + i = p.line + (i + 1) := by omega
        rw [next, same] at later
        simpa [other] using later
    · have next : (p.after c).line = p.line := by rw [Position.after, if_neg feed]
      have later := ih (p.after c) (c :: line) i
      rw [next] at later
      rw [if_neg feed, later]
      cases i with
      | zero => simp
      | succ i => simp

/-- A line of a text is what stands on it, the blanks at the end aside. -/
theorem trimEnd_lines (source : String) {n : Nat} (h : 0 < n) :
    trimEnd (((lines source).toArray[n - 1]?.getD "").toList) =
      trimEnd (onLine (ofChars .start source.toList) n) := by
  have line := getD_linesFrom .start [] source.toList (n - 1)
  have same : Position.start.line + (n - 1) = n := by
    change 1 + (n - 1) = n
    omega
  rw [same] at line
  unfold lines
  rw [List.getElem?_toArray, List.getElem?_map]
  cases found : (linesFrom [] source.toList)[n - 1]? with
  | none => simpa [found] using line
  | some cs => simpa [found] using line

theorem line_le_length {source : String} {g : Glyph} (h : g ∈ ofChars .start source.toList) :
    g.pos.line ≤ (lines source).length := by
  have within := line_lt_of_mem h []
  unfold lines
  rw [List.length_map]
  change g.pos.line < 1 + _ at within
  omega

end Text

end Footprint
