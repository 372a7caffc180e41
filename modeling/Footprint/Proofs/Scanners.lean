import Mathlib.Data.List.Basic
import Footprint.Token.Lexer

set_option autoImplicit false

/-!
What the scanners of the lexer pass. Each of them leaves a part of the text at its end, and a token
that has been read ends with a character that is no line feed.
-/

namespace Footprint.Token

/-! ### Scanners -/

/-- The scan passes some glyphs, the last of which is no line feed. -/
def Closes (gs rest : List Glyph) : Prop :=
  ∃ taken last, gs = taken ++ last :: rest ∧ last.char ≠ '\n'

/-- The scan stays where it is or passes glyphs of which the last is no line feed. -/
def Passes (gs rest : List Glyph) : Prop := rest = gs ∨ Closes gs rest

section

variable {g : Glyph} {gs mid rest : List Glyph}

theorem Closes.suffix (h : Closes gs rest) : rest <:+ gs := by
  obtain ⟨taken, last, rfl, -⟩ := h
  exact ⟨taken ++ [last], by simp⟩

theorem Closes.cons (g : Glyph) (h : Closes gs rest) : Closes (g :: gs) rest := by
  obtain ⟨taken, last, rfl, hlast⟩ := h
  exact ⟨g :: taken, last, rfl, hlast⟩

theorem Passes.refl : Passes gs gs := .inl rfl

theorem Passes.cons (hg : g.char ≠ '\n') (h : Passes gs rest) : Closes (g :: gs) rest := by
  rcases h with rfl | h
  · exact ⟨[], g, rfl, hg⟩
  · exact h.cons g

theorem Passes.trans (h : Passes gs mid) (h' : Passes mid rest) : Passes gs rest := by
  rcases h' with rfl | ⟨taken, last, rfl, hlast⟩
  · exact h
  · refine .inr ?_
    rcases h with rfl | h
    · exact ⟨taken, last, rfl, hlast⟩
    · obtain ⟨front, hfront⟩ := h.suffix
      exact ⟨front ++ taken, last, by rw [← hfront, List.append_assoc], hlast⟩

theorem ne_of_class {p : Char → Bool} {c d : Char} (hd : p d = false) (hc : p c = true) :
    c ≠ d := by
  rintro rfl
  rw [hc] at hd
  cases hd

theorem passes_dropWhile {p : Char → Bool} (hp : p '\n' = false) (gs : List Glyph) :
    Passes gs (gs.dropWhile fun g => p g.char) := by
  induction gs with
  | nil => exact .refl
  | cons g gs ih =>
    rw [List.dropWhile_cons]
    split
    · next hg => exact .inr (ih.cons (ne_of_class hp hg))
    · exact .refl

end

theorem margin_suffix (column : Nat) (gs : List Glyph) : (margin column gs).2 <:+ gs := by
  fun_induction margin column gs with
  | case1 | case5 => exact List.suffix_refl _
  | case2 _ g gs _ ih | case3 _ g gs _ _ ih | case4 _ g gs _ _ _ ih =>
    exact ih.trans (List.suffix_cons g gs)

theorem afterComment_suffix (gs : List Glyph) : afterComment gs <:+ gs := List.dropWhile_suffix _

theorem afterBlanks_suffix (comment : Bool) (gs : List Glyph) : afterBlanks comment gs <:+ gs := by
  fun_induction afterBlanks comment gs with
  | case1 | case7 | case8 | case9 | case10 => exact List.suffix_refl _
  | case2 _ g gs _ ih | case3 _ g gs _ _ ih | case4 _ g gs _ _ _ ih =>
    exact ih.trans (List.suffix_cons g gs)
  | case5 _ g _ _ _ _ a gs _ ih => exact ih.trans (List.suffix_append [g, a] gs)
  | case6 _ g _ _ _ _ a _ b gs _ ih => exact ih.trans (List.suffix_append [g, a, b] gs)

theorem closes_stringBody {quote : Char} {triple : Bool} {start finish : Position}
    {acc : List Char} {gs : List Glyph} {r : String × List Glyph} (hquote : quote ≠ '\n')
    (h : stringBody quote triple start finish acc gs = .ok r) : Closes gs r.2 := by
  fun_induction stringBody quote triple start finish acc gs with
  | case1 | case6 | case7 => cases h
  | case2 _ g _ _ a b rest closing =>
    cases h
    exact ⟨[g, a], b, rfl, closing.2 ▸ hquote⟩
  | case5 _ g gs closing =>
    cases h
    exact ⟨[], g, rfl, closing ▸ hquote⟩
  | case3 _ g _ _ _ _ _ _ ih | case4 _ g _ _ _ _ ih | case9 _ g _ _ _ _ ih =>
    exact (ih h).cons g
  | case8 _ g _ _ _ e gs ih => exact ((ih h).cons e).cons g

theorem closes_stringLiteral {quote : Char} {start finish : Position} {gs : List Glyph}
    {r : String × List Glyph} (hquote : quote ≠ '\n')
    (h : stringLiteral quote start finish gs = .ok r) : Closes gs r.2 := by
  unfold stringLiteral at h
  split at h
  · next a b rest =>
    split at h
    · exact ((closes_stringBody hquote h).cons b).cons a
    · exact closes_stringBody hquote h
  · exact closes_stringBody hquote h

theorem passes_digits (gs : List Glyph) : Passes gs (digits gs).2 := by
  fun_induction digits gs with
  | case1 | case4 => exact .refl
  | case2 g gs digit ds rest eq ih =>
    rw [eq] at ih
    exact .inr (ih.cons (ne_of_class (by decide) digit))
  | case3 g gs _ score ih => exact .inr (ih.cons (by rw [score]; decide))

theorem passes_fraction (gs : List Glyph) : Passes gs (fraction gs).2 := by
  unfold fraction
  split
  · next p d rest =>
    split
    · next point =>
      rw [Bool.and_eq_true, decide_eq_true_iff] at point
      exact .inr ((passes_digits (d :: rest)).cons (by rw [point.1]; decide))
    · exact .refl
  · exact .refl

theorem passes_power (gs : List Glyph) : Passes gs (power gs).2 := by
  unfold power
  split
  · next e s rest =>
    split
    · next mark =>
      have letter : e.char ≠ '\n' := by
        intro feed
        rw [feed] at mark
        exact absurd mark (by decide)
      split
      · exact .inr ((passes_digits (s :: rest)).cons letter)
      · split
        · next d more =>
          split
          · next sign =>
            have sign : s.char ≠ '\n' := by
              intro feed
              rw [feed] at sign
              exact absurd sign (by simp)
            exact .inr ((Passes.cons sign (passes_digits (d :: more))).cons e)
          · exact .refl
        · exact .refl
    · exact .refl
  · exact .refl

theorem passes_numberLiteral {first : Char} {start : Position} {gs : List Glyph}
    {r : Kind × List Glyph} (h : numberLiteral first start gs = .ok r) : Passes gs r.2 := by
  have whole := ((passes_digits gs).trans (passes_fraction _)).trans (passes_power _)
  unfold numberLiteral at h
  dsimp only at h
  split at h
  · split at h
    · cases h
      exact whole
    · cases h
  · cases h
    exact whole

theorem passes_word (first : Char) (gs : List Glyph) : Passes gs (word first gs).2 :=
  passes_dropWhile (p := isNamePart) (by decide) gs

theorem passes_withAssign (plain assigned : Symbol) (gs : List Glyph) :
    Passes gs (withAssign plain assigned gs).2 := by
  fun_cases withAssign plain assigned gs with
  | case1 | case3 => exact .refl
  | case2 g gs sign => exact .inr (Passes.refl.cons (by rw [sign]; decide))

theorem passes_withDouble {c : Char} (hc : c ≠ '\n')
    (plain assigned double doubleAssigned : Symbol) (gs : List Glyph) :
    Passes gs (withDouble c plain assigned double doubleAssigned gs).2 := by
  fun_cases withDouble c plain assigned double doubleAssigned gs with
  | case1 => exact .refl
  | case2 g gs sign => exact .inr ((passes_withAssign _ _ gs).cons (sign ▸ hc))
  | case3 g gs => exact passes_withAssign _ _ (g :: gs)

theorem passes_symbol? {c : Char} {gs : List Glyph} {r : Symbol × List Glyph}
    (h : symbol? c gs = some r) : Passes gs r.2 := by
  unfold symbol? at h
  split at h
  case h_1 | h_5 | h_6 | h_7 | h_8 =>
    cases h
    exact passes_withAssign _ _ gs
  case h_2 =>
    split at h
    · next g rest =>
      split at h
      · next arrow =>
        cases h
        exact .inr (Passes.refl.cons (by rw [arrow]; decide))
      · cases h
        exact passes_withAssign _ _ (g :: rest)
    · cases h
      exact .refl
  case h_3 | h_4 =>
    cases h
    exact passes_withDouble (by decide) _ _ _ _ gs
  case h_9 =>
    split at h
    · next g rest =>
      split at h
      · next sign =>
        cases h
        exact .inr (Passes.refl.cons (by rw [sign]; decide))
      · cases h
    · cases h
  case h_19 => cases h
  all_goals
    cases h
    exact .refl

section

variable {finish : Position} {depth : Nat} {g : Glyph} {gs : List Glyph} {r : Read}

/-- What `read` gives is a string, a number, a word or a symbol; a symbol alone may change the depth
of brackets. -/
theorem read_cases (h : read finish depth g gs = .ok r) :
    (∃ text, (g.char = '"' ∨ g.char = '\x27') ∧
      stringLiteral g.char g.pos finish gs = .ok (text, r.rest) ∧ r.kind = .str text ∧
        r.depth = depth) ∨
    (g.char.isDigit = true ∧ numberLiteral g.char g.pos gs = .ok (r.kind, r.rest) ∧
      r.depth = depth) ∨
    (isNameStart g.char = true ∧ word g.char gs = (r.kind, r.rest) ∧ r.depth = depth) ∨
    (∃ s, symbol? g.char gs = some (s, r.rest) ∧ r.kind = .mark (.symbol s) ∧
      depthAfter? depth s = some r.depth) := by
  unfold read at h
  split at h
  · next quote =>
    cases hs : stringLiteral g.char g.pos finish gs with
    | error e =>
      rw [hs] at h
      cases h
    | ok literal =>
      rw [hs] at h
      cases h
      exact .inl ⟨literal.1, quote, rfl, rfl, rfl⟩
  · refine .inr ?_
    split at h
    · next digit =>
      cases hs : numberLiteral g.char g.pos gs with
      | error e =>
        rw [hs] at h
        cases h
      | ok literal =>
        rw [hs] at h
        cases h
        exact .inl ⟨digit, rfl, rfl⟩
    · refine .inr ?_
      split at h
      · next begins =>
        cases h
        exact .inl ⟨begins, rfl, rfl⟩
      · split at h
        · cases h
        · next s rest found =>
          split at h
          · cases h
          · next after =>
            cases h
            exact .inr ⟨s, found, rfl, after⟩

/-- A token ends with a character that is no line feed. -/
theorem closes_read (hg : g.char ≠ '\n') (h : read finish depth g gs = .ok r) :
    Closes (g :: gs) r.rest := by
  rcases read_cases h with ⟨text, -, literal, -⟩ | ⟨-, literal, -⟩ | ⟨-, literal, -⟩ | ⟨s, found, -⟩
  · exact (closes_stringLiteral hg literal).cons g
  · exact (passes_numberLiteral literal).cons hg
  · have passes := passes_word g.char gs
    rw [literal] at passes
    exact passes.cons hg
  · exact (passes_symbol? found).cons hg

/-- What is read is no layout. -/
theorem isLayout_read (h : read finish depth g gs = .ok r) : r.kind.isLayout = false := by
  rcases read_cases h with ⟨text, -, -, kind, -⟩ | ⟨-, literal, -⟩ | ⟨-, literal, -⟩ |
    ⟨s, -, kind, -⟩
  · rw [kind]
    rfl
  · unfold numberLiteral at literal
    dsimp only at literal
    split at literal
    · split at literal
      · rw [← (Prod.mk.inj (Except.ok.inj literal)).1]
        rfl
      · cases literal
    · rw [← (Prod.mk.inj (Except.ok.inj literal)).1]
      rfl
  · have kind : (word g.char gs).1 = r.kind := congrArg Prod.fst literal
    rw [← kind]
    unfold word wordKind
    dsimp only
    split
    · rfl
    · rfl
  · rw [kind]
    rfl

end

theorem Kind.ne_mark_of_isLayout {k : Kind} {m : Mark} (h : k.isLayout = false)
    (layout : m.isLayout = true) : k ≠ .mark m := by
  rintro rfl
  exact absurd (h.symm.trans layout) Bool.false_ne_true

end Footprint.Token
