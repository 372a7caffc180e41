import Footprint.Proofs.Gaps

set_option autoImplicit false

/-!
How far the readers of tokens look. Numbers, words and symbols are read in a line, whatever comes
after the end of the line; a string literal is read up to its closing quote, whatever comes after
it.
-/

namespace Footprint.Token

/-! ### Blanks -/

/-- What `afterBlanks` skips outside of a comment: blanks, a comment, and the ends of lines that are
joined. -/
inductive Skips : List Glyph → List Glyph → Prop
  | nil : Skips [] []
  | blank {g : Glyph} {gs rest : List Glyph} : g.char ∈ [' ', '\t', '\r', '\x0c'] → Skips gs rest →
      Skips (g :: gs) rest
  | comment {g : Glyph} {gs : List Glyph} : g.char = '#' → Skips (g :: gs) (afterComment gs)
  | join {g a : Glyph} {gs rest : List Glyph} : g.char = '\\' → a.char = '\n' → Skips gs rest →
      Skips (g :: a :: gs) rest
  | joinReturn {g a b : Glyph} {gs rest : List Glyph} : g.char = '\\' → a.char = '\r' →
      b.char = '\n' → Skips gs rest → Skips (g :: a :: b :: gs) rest
  | backslash {g : Glyph} {gs : List Glyph} : g.char = '\\' →
      (∀ a as, gs = a :: as → a.char ≠ '\n') →
      (∀ a b bs, gs = a :: b :: bs → ¬ (a.char = '\r' ∧ b.char = '\n')) →
      Skips (g :: gs) (g :: gs)
  | text {g : Glyph} {gs : List Glyph} : g.char ∉ [' ', '\t', '\r', '\x0c', '#', '\\'] →
      Skips (g :: gs) (g :: gs)

namespace Skips

variable {gs rest : List Glyph}

theorem afterBlanks_eq (h : Skips gs rest) : afterBlanks false gs = rest := by
  induction h with
  | nil => rfl
  | blank blank _ ih =>
    rw [afterBlanks.eq_def]
    dsimp only
    rw [if_neg (by simp), if_pos (by simpa [or_assoc] using blank), ih]
  | comment hash =>
    rw [afterBlanks.eq_def]
    simp [hash, afterBlanks_comment]
  | join back feed _ ih =>
    rw [afterBlanks.eq_def]
    simp [back, feed, ih]
  | joinReturn back ret feed _ ih =>
    rw [afterBlanks.eq_def]
    simp [back, ret, feed, ih]
  | @backslash g gs back first second =>
    rw [afterBlanks.eq_def]
    rcases gs with - | ⟨a, - | ⟨b, bs⟩⟩
    · simp [back]
    · simp [back, first a [] rfl]
    · have other := second a b bs rfl
      simp only [back, first a _ rfl, other]
      rfl
  | text text =>
    rw [afterBlanks.eq_def]
    simp at text
    simp [text]

theorem of_afterBlanks {comment : Bool} (outside : comment = false) (gs : List Glyph) :
    Skips gs (afterBlanks comment gs) := by
  fun_induction afterBlanks comment gs with
  | case1 => exact .nil
  | case2 comment g gs going =>
    subst outside
    cases going
  | case3 comment g gs _ blank ih => exact .blank (by simpa [or_assoc] using blank) (ih rfl)
  | case4 comment g gs _ _ hash =>
    rw [afterBlanks_comment]
    exact .comment hash
  | case5 comment g _ _ _ back a gs feed ih => exact .join back feed (ih rfl)
  | case6 comment g _ _ _ back a other b gs feed ih =>
    exact .joinReturn back feed.1 feed.2 (ih rfl)
  | case7 comment g _ _ _ back a other b gs other' =>
    refine .backslash back ?_ ?_
    · rintro _ _ ⟨⟩
      exact other
    · rintro _ _ _ ⟨⟩
      exact other'
  | case8 comment g _ _ _ back a other =>
    refine .backslash back ?_ ?_
    · rintro _ _ ⟨⟩
      exact other
    · rintro _ _ _ ⟨⟩
  | case9 comment g _ _ _ back =>
    refine .backslash back ?_ ?_
    · rintro _ _ ⟨⟩
    · rintro _ _ _ ⟨⟩
  | case10 comment g gs _ blank hash back =>
    refine .text ?_
    simp at blank hash back ⊢
    simp [blank, hash, back]

end Skips

/-! ### Within a line -/

/-- Nothing is ahead, or a character that ends a line. -/
def AtLineEnd (bs : List Glyph) : Prop := ∀ b ∈ bs.head?, b.char = '\n' ∨ b.char = '\r'

variable {as bs : List Glyph}

namespace AtLineEnd

variable {b : Glyph}

theorem ne (h : AtLineEnd (b :: bs)) {c : Char} (feed : c ≠ '\n') (back : c ≠ '\r') :
    b.char ≠ c := by
  rcases h b rfl with same | same
  · rw [same]
    exact feed.symm
  · rw [same]
    exact back.symm

/-- What holds of no end of a line does not hold of what is ahead. -/
theorem fails (h : AtLineEnd (b :: bs)) {p : Char → Bool} (feed : p '\n' = false)
    (back : p '\r' = false) : ¬ p b.char = true := by
  rcases h b rfl with same | same
  · rw [same, feed]
    exact Bool.false_ne_true
  · rw [same, back]
    exact Bool.false_ne_true

end AtLineEnd

/-- What is ahead, up to the end of the line and from there on. -/
theorem exists_line (gs : List Glyph) : ∃ as bs, gs = as ++ bs ∧ AtLineEnd bs ∧
    ∀ g ∈ as, g.char ≠ '\n' ∧ g.char ≠ '\r' := by
  induction gs with
  | nil => exact ⟨[], [], rfl, nofun, nofun⟩
  | cons g gs ih =>
    by_cases ends : g.char = '\n' ∨ g.char = '\r'
    · exact ⟨[], g :: gs, rfl, fun b hb => Option.some.inj hb ▸ ends, nofun⟩
    · obtain ⟨as, bs, rfl, stop, inLine⟩ := ih
      refine ⟨g :: as, bs, rfl, stop, List.forall_mem_cons.2 ⟨not_or.1 ends, inLine⟩⟩

theorem digits_append (as : List Glyph) (h : AtLineEnd bs) :
    digits (as ++ bs) = ((digits as).1, (digits as).2 ++ bs) := by
  induction as with
  | nil =>
    cases bs with
    | nil => rfl
    | cons b bs =>
      have digit := h.fails (p := Char.isDigit) rfl rfl
      have underscore := h.ne (c := '_') (by decide) (by decide)
      simp [digits, digit, underscore]
  | cons a as ih =>
    rw [List.cons_append, digits, digits, ih]
    split
    · rfl
    · split
      · rfl
      · rfl

theorem fraction_append (as : List Glyph) (h : AtLineEnd bs) :
    fraction (as ++ bs) = ((fraction as).1, (fraction as).2 ++ bs) := by
  have none {p : Glyph} {gs : List Glyph} (other : p.char ≠ '.') :
      fraction (p :: gs) = ([], p :: gs) := by
    unfold fraction
    split
    · next q d rest same =>
      obtain ⟨rfl, rfl⟩ := List.cons.inj same
      simp [other]
    · rfl
  match as with
  | [] =>
    cases bs with
    | nil => rfl
    | cons b bs => exact none (h.ne (by decide) (by decide))
  | [p] =>
    cases bs with
    | nil => rfl
    | cons b bs =>
      have digit : ¬ b.char.isDigit = true := h.fails rfl rfl
      simp [fraction, digit]
  | p :: d :: as =>
    have rest := digits_append (d :: as) h
    rw [List.cons_append] at rest
    simp only [fraction, List.cons_append, rest]
    split <;> rfl

theorem power_append (as : List Glyph) (h : AtLineEnd bs) :
    power (as ++ bs) = ((power as).1, (power as).2 ++ bs) := by
  match as with
  | e :: s :: d :: as =>
    have first := digits_append (s :: d :: as) h
    have second := digits_append (d :: as) h
    rw [List.cons_append, List.cons_append] at first
    rw [List.cons_append] at second
    simp only [power, List.cons_append, first, second]
    split
    · split
      · rfl
      · split <;> rfl
    · rfl
  | [e, s] =>
    have one := digits_append [s] h
    rw [List.singleton_append] at one
    simp only [power, List.cons_append, List.nil_append, one]
    split
    · split
      · rfl
      · cases bs with
        | nil => rfl
        | cons b bs =>
          have digit := h.fails (p := Char.isDigit) rfl rfl
          simp [digit]
    · rfl
  | [e] =>
    match bs with
    | [] => rfl
    | [b] =>
      have digit := h.fails (p := Char.isDigit) rfl rfl
      simp [power, digit]
    | b :: d :: bs =>
      have digit := h.fails (p := Char.isDigit) rfl rfl
      have plus := h.ne (c := '+') (by decide) (by decide)
      have minus := h.ne (c := '-') (by decide) (by decide)
      simp [power, digit, plus, minus]
  | [] =>
    match bs with
    | [] => rfl
    | [b] => rfl
    | b :: d :: bs =>
      have lower := h.ne (c := 'e') (by decide) (by decide)
      have upper := h.ne (c := 'E') (by decide) (by decide)
      simp [power, lower, upper]

theorem numberLiteral_append {first : Char} {start : Position} (as : List Glyph)
    (h : AtLineEnd bs) :
    numberLiteral first start (as ++ bs) =
      (numberLiteral first start as).map fun r => (r.1, r.2 ++ bs) := by
  unfold numberLiteral
  rw [digits_append as h]
  dsimp only
  rw [fraction_append _ h]
  dsimp only
  rw [power_append _ h]
  dsimp only
  split
  · split <;> rfl
  · rfl

theorem word_append {first : Char} (as : List Glyph) (h : AtLineEnd bs) :
    word first (as ++ bs) = ((word first as).1, (word first as).2 ++ bs) := by
  have both : (as ++ bs).takeWhile (fun g => isNamePart g.char) =
        as.takeWhile (fun g => isNamePart g.char) ∧
      (as ++ bs).dropWhile (fun g => isNamePart g.char) =
        as.dropWhile (fun g => isNamePart g.char) ++ bs := by
    induction as with
    | nil =>
      cases bs with
      | nil => exact ⟨rfl, rfl⟩
      | cons b bs =>
        have part := h.fails (p := isNamePart) (by decide) (by decide)
        simp [part]
    | cons a as ih =>
      cases part : isNamePart a.char with
      | true => simpa [part] using ih
      | false => simp [part]
  rw [word, word, both.1, both.2]

theorem withAssign_append {plain assigned : Symbol} (as : List Glyph) (h : AtLineEnd bs) :
    withAssign plain assigned (as ++ bs) =
      ((withAssign plain assigned as).1, (withAssign plain assigned as).2 ++ bs) := by
  cases as with
  | nil =>
    cases bs with
    | nil => rfl
    | cons b bs =>
      have sign := h.ne (c := '=') (by decide) (by decide)
      simp [withAssign, sign]
  | cons a as =>
    rw [List.cons_append, withAssign, withAssign]
    split <;> rfl

theorem withDouble_append {c : Char} {plain assigned double doubleAssigned : Symbol}
    (as : List Glyph) (h : AtLineEnd bs) (feed : c ≠ '\n') (back : c ≠ '\r') :
    withDouble c plain assigned double doubleAssigned (as ++ bs) =
      ((withDouble c plain assigned double doubleAssigned as).1,
        (withDouble c plain assigned double doubleAssigned as).2 ++ bs) := by
  cases as with
  | nil =>
    cases bs with
    | nil => rfl
    | cons b bs =>
      rw [List.nil_append, withDouble, withDouble, if_neg (h.ne feed back)]
      exact withAssign_append [] h
  | cons a as =>
    rw [List.cons_append, withDouble, withDouble]
    split
    · exact withAssign_append as h
    · exact withAssign_append (a :: as) h

theorem symbol?_append {c : Char} (as : List Glyph) (h : AtLineEnd bs) :
    symbol? c (as ++ bs) = (symbol? c as).map fun r => (r.1, r.2 ++ bs) := by
  have one {plain assigned : Symbol} : some (withAssign plain assigned (as ++ bs)) =
      (some (withAssign plain assigned as)).map fun r => (r.1, r.2 ++ bs) :=
    congrArg some (withAssign_append as h)
  have two {c : Char} {plain assigned double doubleAssigned : Symbol} (feed : c ≠ '\n')
      (back : c ≠ '\r') : some (withDouble c plain assigned double doubleAssigned (as ++ bs)) =
        (some (withDouble c plain assigned double doubleAssigned as)).map
          fun r => (r.1, r.2 ++ bs) :=
    congrArg some (withDouble_append as h feed back)
  unfold symbol?
  split
  case h_1 | h_5 | h_6 | h_7 | h_8 => exact one
  case h_3 | h_4 => exact two (by decide) (by decide)
  case h_2 =>
    cases as with
    | nil =>
      cases bs with
      | nil => rfl
      | cons b bs =>
        rw [List.nil_append]
        dsimp only
        rw [if_neg (h.ne (by decide) (by decide))]
        exact one
    | cons a as =>
      rw [List.cons_append]
      dsimp only
      split
      · rfl
      · exact one
  case h_9 =>
    cases as with
    | nil =>
      cases bs with
      | nil => rfl
      | cons b bs =>
        rw [List.nil_append]
        dsimp only
        rw [if_neg (h.ne (by decide) (by decide))]
        rfl
    | cons a as =>
      rw [List.cons_append]
      dsimp only
      split <;> rfl
  all_goals rfl

/-- Whatever is no string literal is read in the line. -/
theorem read_append {finish finish' : Position} {depth : Nat} {g : Glyph} (as : List Glyph)
    (other : ¬ (g.char = '"' ∨ g.char = '\x27')) (h : AtLineEnd bs) :
    read finish' depth g (as ++ bs) =
      (read finish depth g as).map fun r => ⟨r.kind, r.depth, r.rest ++ bs⟩ := by
  unfold read
  rw [if_neg other, if_neg other]
  split
  · rw [numberLiteral_append as h]
    cases numberLiteral g.char g.pos as <;> rfl
  · split
    · rw [word_append as h]
      rfl
    · rw [symbol?_append as h]
      cases symbol? g.char as with
      | none => rfl
      | some r =>
        dsimp only [Option.map]
        cases depthAfter? depth r.1 <;> rfl

/-! ### String literals -/

section

variable {quote : Char} {triple : Bool} {start finish : Position} {acc : List Char}
  {gs taken rest : List Glyph} {s : String}

/-- What is left after three closing quotes. -/
theorem length_stringBody_triple {r : String × List Glyph} (three : triple = true)
    (h : stringBody quote triple start finish acc gs = .ok r) : r.2.length + 3 ≤ gs.length := by
  fun_induction stringBody quote triple start finish acc gs
  case case1 | case6 | case7 => cases h
  case case2 =>
    cases h
    exact Nat.le_refl _
  case case5 other => exact absurd three other
  case case3 ih | case4 ih | case9 ih => exact Nat.le_succ_of_le (ih h)
  case case8 ih => exact Nat.le_succ_of_le (Nat.le_succ_of_le (ih h))

section

variable {g : Glyph}

theorem stringBody_close (closes : g.char = quote) :
    stringBody quote false start finish acc (g :: gs) =
      .ok (String.ofList acc.reverse, gs) := by
  rw [stringBody.eq_def]
  dsimp only
  rw [if_pos closes, if_neg Bool.false_ne_true]

theorem stringBody_close_triple {a b : Glyph} (closes : g.char = quote)
    (three : a.char = quote ∧ b.char = quote) :
    stringBody quote true start finish acc (g :: a :: b :: gs) =
      .ok (String.ofList acc.reverse, gs) := by
  rw [stringBody.eq_def]
  dsimp only
  rw [if_pos closes, if_pos rfl, if_pos three]

theorem stringBody_quote (closes : g.char = quote)
    (fewer : ∀ a b rest, gs = a :: b :: rest → ¬ (a.char = quote ∧ b.char = quote)) :
    stringBody quote true start finish acc (g :: gs) =
      stringBody quote true start finish (quote :: acc) gs := by
  rw [stringBody.eq_def]
  dsimp only
  rw [if_pos closes, if_pos rfl]
  split
  · next a b rest => rw [if_neg (fewer a b rest rfl)]
  · rfl

theorem stringBody_feed (other : g.char ≠ quote) (feed : g.char = '\n') :
    stringBody quote false start finish acc (g :: gs) = .error ⟨.unterminatedString, start⟩ := by
  rw [stringBody.eq_def]
  dsimp only
  rw [if_neg other, feed, if_pos (by decide)]

theorem stringBody_escape {e : Glyph} (other : g.char ≠ quote) (escapes : g.char = '\\') :
    stringBody quote triple start finish acc (g :: e :: gs) =
      stringBody quote triple start finish ((unescape e.char).reverse ++ acc) gs := by
  rw [stringBody.eq_def]
  dsimp only
  rw [if_neg other, escapes, if_neg (by simp), if_pos rfl]

theorem stringBody_plain (other : g.char ≠ quote) (inLine : triple = false → g.char ≠ '\n')
    (plain : g.char ≠ '\\') :
    stringBody quote triple start finish acc (g :: gs) =
      stringBody quote triple start finish (g.char :: acc) gs := by
  rw [stringBody.eq_def]
  dsimp only
  rw [if_neg other, if_neg (by cases triple <;> simp_all), if_neg plain]

end

theorem exists_taken {g : Glyph} (split : g :: gs = taken ++ rest)
    (le : rest.length ≤ gs.length) : ∃ taken', taken = g :: taken' ∧ gs = taken' ++ rest := by
  cases taken with
  | nil =>
    have same := congrArg List.length split
    rw [List.length_cons, List.nil_append] at same
    omega
  | cons t taken' =>
    obtain ⟨rfl, same⟩ := List.cons.inj split
    exact ⟨taken', rfl, same⟩

/-- A string literal ends at its closing quote, whatever comes after it. -/
theorem stringBody_append (h : stringBody quote triple start finish acc gs = .ok (s, rest))
    (split : gs = taken ++ rest) (finish' : Position) (rest' : List Glyph) :
    stringBody quote triple start finish' acc (taken ++ rest') = .ok (s, rest') := by
  fun_induction stringBody quote triple start finish acc gs generalizing taken
  case case1 | case6 | case7 => cases h
  case case2 closes three a b after closes' =>
    cases h
    obtain rfl := three
    obtain rfl : taken = [_, a, b] := (List.append_cancel_right split).symm
    exact stringBody_close_triple closes closes'
  case case3 acc g closes three a b after other ih =>
    obtain rfl := three
    have three := length_stringBody_triple rfl h
    obtain ⟨taken, rfl, within⟩ := exists_taken split (Nat.le_trans (Nat.le_add_right _ 3) three)
    have fewer : ∀ a' b' more, taken ++ rest' = a' :: b' :: more →
        ¬ (a'.char = quote ∧ b'.char = quote) := by
      rw [within, List.length_append] at three
      rcases taken with - | ⟨x, - | ⟨y, taken⟩⟩
      · simp only [List.length_nil] at three
        omega
      · simp only [List.length_cons, List.length_nil] at three
        omega
      · rintro a' b' more same
        cases within
        cases same
        exact other
    rw [List.cons_append, stringBody_quote closes fewer]
    exact ih h within
  case case4 acc g closes three gs short ih =>
    have three := length_stringBody_triple three h
    rcases gs with - | ⟨a, - | ⟨b, gs⟩⟩
    · simp at three
    · simp at three
    · exact absurd rfl (short a b gs)
  case case5 acc g gs closes one =>
    cases h
    obtain rfl := Bool.eq_false_iff.2 one
    obtain ⟨taken, rfl, within⟩ := exists_taken split (Nat.le_refl _)
    obtain rfl : taken = [] := List.append_cancel_right within.symm
    exact stringBody_close closes
  case case8 acc g other inLine escapes e gs ih =>
    have shorter := length_stringBody_le h
    obtain ⟨after, rfl, behind⟩ := exists_taken split (Nat.le_succ_of_le shorter)
    obtain ⟨taken, rfl, within⟩ := exists_taken behind shorter
    rw [List.cons_append, List.cons_append, stringBody_escape other escapes]
    exact ih h within
  case case9 acc g gs other inLine plain ih =>
    obtain ⟨taken, rfl, within⟩ := exists_taken split (length_stringBody_le h)
    have feed : triple = false → g.char ≠ '\n' := by
      rintro rfl same
      simp [same] at inLine
    rw [List.cons_append, stringBody_plain other feed plain]
    exact ih h within

theorem stringLiteral_triple {a b : Glyph} (three : a.char = quote ∧ b.char = quote) :
    stringLiteral quote start finish (a :: b :: gs) = stringBody quote true start finish [] gs :=
  if_pos three

theorem stringLiteral_single
    (fewer : ∀ a b rest, gs = a :: b :: rest → ¬ (a.char = quote ∧ b.char = quote)) :
    stringLiteral quote start finish gs = stringBody quote false start finish [] gs := by
  unfold stringLiteral
  split
  · next a b rest => exact if_neg (fewer a b rest rfl)
  · rfl

/-- The glyph after a string literal is looked at only to tell two quotes from three. -/
theorem stringLiteral_append (h : stringLiteral quote start finish gs = .ok (s, rest))
    (split : gs = taken ++ rest) (finish' : Position) {rest' : List Glyph}
    (next : (∀ b ∈ rest.head?, b.char ≠ quote) → ∀ b ∈ rest'.head?, b.char ≠ quote) :
    stringLiteral quote start finish' (taken ++ rest') = .ok (s, rest') := by
  by_cases long : ∃ a b more, gs = a :: b :: more ∧ a.char = quote ∧ b.char = quote
  · obtain ⟨a, b, more, rfl, three⟩ := long
    rw [stringLiteral_triple three] at h
    have shorter := length_stringBody_le h
    obtain ⟨after, rfl, behind⟩ := exists_taken split (Nat.le_succ_of_le shorter)
    obtain ⟨taken, rfl, within⟩ := exists_taken behind shorter
    rw [List.cons_append, List.cons_append, stringLiteral_triple three]
    exact stringBody_append h within finish' rest'
  · have fewer : ∀ a b more, gs = a :: b :: more → ¬ (a.char = quote ∧ b.char = quote) :=
      fun a b more same three => long ⟨a, b, more, same, three⟩
    rw [stringLiteral_single fewer] at h
    have body := stringBody_append h split finish'
    rw [stringLiteral_single ?_]
    · exact body rest'
    · match taken with
      | [] => cases body []
      | [a] =>
        rintro a' b' more same ⟨closes, again⟩
        obtain ⟨rfl, rfl⟩ := List.cons.inj same
        refine next (fun b hb => ?_) b' rfl again
        obtain ⟨others, rfl⟩ := List.head?_eq_some_iff.1 hb
        exact fun same => fewer a b others split ⟨closes, same⟩
      | a :: b :: taken =>
        rintro a' b' more same
        cases same
        exact fewer a b _ split

end

/-- A quote begins a string literal. -/
theorem read_quoted_eq_ok {finish : Position} {depth : Nat} {g : Glyph} {gs : List Glyph} {r : Read}
    (quoted : g.char = '"' ∨ g.char = '\x27') : read finish depth g gs = .ok r ↔
      ∃ s rest, stringLiteral g.char g.pos finish gs = .ok (s, rest) ∧
        r = ⟨.str s, depth, rest⟩ := by
  have literal : read finish depth g gs = (stringLiteral g.char g.pos finish gs).map
      fun r => ⟨.str r.1, depth, r.2⟩ := if_pos quoted
  rw [literal]
  constructor
  · intro h
    cases body : stringLiteral g.char g.pos finish gs with
    | error e =>
      rw [body] at h
      cases h
    | ok p =>
      rw [body] at h
      cases h
      exact ⟨p.1, p.2, rfl, rfl⟩
  · rintro ⟨s, rest, body, rfl⟩
    rw [body]
    rfl

end Footprint.Token
