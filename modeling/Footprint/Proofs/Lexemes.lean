import Mathlib.Data.List.TakeDrop
import Footprint.Proofs.Spelling

set_option autoImplicit false

/-!
What tokens look like in a text. Whatever the scan reads as a token, the characters that it passes
spell that token.
-/

namespace Footprint.Token

/-! ### Spelling -/

/-- The text between quotes, as it is written, stands for the second text; in a text with three
quotes around it, a quote stands for itself unless it is the first of three. -/
inductive Decodes (q : Char) (triple : Bool) : List Char → List Char → Prop
  | nil : Decodes q triple [] []
  | plain {c : Char} {cs text : List Char} : c ≠ q → c ≠ '\\' → (triple = false → c ≠ '\n') →
      Decodes q triple cs text → Decodes q triple (c :: cs) (c :: text)
  | escape (e : Char) {cs text : List Char} : Decodes q triple cs text →
      Decodes q triple ('\\' :: e :: cs) (unescape e ++ text)
  | quote {cs text : List Char} : triple = true → ¬ [q, q] <+: cs ++ [q, q, q] →
      Decodes q triple cs text → Decodes q triple (q :: cs) (q :: text)

/-- A digit, with digits and underscores after it. -/
inductive IsNumeral : List Char → Prop
  | mk {d : Char} {cs : List Char} : d.isDigit = true → (∀ c ∈ cs, c.isDigit = true ∨ c = '_') →
      IsNumeral (d :: cs)

/-- The places of a number after the point, if there is one. -/
inductive IsFraction : List Char → Prop
  | none : IsFraction []
  | places {cs : List Char} : IsNumeral cs → IsFraction ('.' :: cs)

/-- The exponent of a number, if there is one: a mark, a sign or none, and a numeral. -/
inductive IsExponent : List Char → Prop
  | none : IsExponent []
  | power {e : Char} {sign cs : List Char} : e = 'e' ∨ e = 'E' →
      sign ∈ [[], ['+'], ['-']] → IsNumeral cs → IsExponent (e :: (sign ++ cs))

/-- The text without its underscores. -/
def joined (cs : List Char) : List Char := cs.filter (· ≠ '_')

/-- The characters spell the token. -/
inductive Kind.Spells : Kind → List Char → Prop
  | keyword (k : Keyword) : Spells (.mark (.keyword k)) k.text.toList
  | symbol (s : Symbol) : Spells (.mark (.symbol s)) s.text.toList
  | name {s : String} : isIdentifier s = true → Spells (.name s) s.toList
  | int {n : Int64} {cs : List Char} : IsNumeral cs → n.toInt = Decimal.natOf (joined cs) →
      Spells (.int n) cs
  | float {x : Float} {whole places exponent : List Char} : IsNumeral whole → IsFraction places →
      IsExponent exponent → places ≠ [] ∨ exponent ≠ [] →
      Decimal.readFloat? (joined (whole ++ places ++ exponent)) = some x →
      Spells (.float x) (whole ++ places ++ exponent)
  | str {q : Char} {cs text : List Char} : q = '"' ∨ q = '\x27' → Decodes q false cs text →
      Spells (.str (.ofList text)) (q :: (cs ++ [q]))
  | longStr {q : Char} {cs text : List Char} : q = '"' ∨ q = '\x27' → Decodes q true cs text →
      Spells (.str (.ofList text)) (q :: q :: q :: (cs ++ [q, q, q]))

/-! ### What scanners pass -/

/-- The glyphs are the characters and, after them, the rest. -/
def Spans (gs : List Glyph) (cs : List Char) (rest : List Glyph) : Prop :=
  ∃ taken, gs = taken ++ rest ∧ taken.map Glyph.char = cs

namespace Spans

variable {g : Glyph} {gs mid rest : List Glyph} {cs ds : List Char}

theorem refl (gs : List Glyph) : Spans gs [] gs := ⟨[], rfl, rfl⟩

theorem cons (g : Glyph) (h : Spans gs cs rest) : Spans (g :: gs) (g.char :: cs) rest := by
  obtain ⟨taken, rfl, rfl⟩ := h
  exact ⟨g :: taken, rfl, rfl⟩

theorem one (g : Glyph) (gs : List Glyph) : Spans (g :: gs) [g.char] gs := (refl gs).cons g

theorem trans (h : Spans gs cs mid) (h' : Spans mid ds rest) : Spans gs (cs ++ ds) rest := by
  obtain ⟨taken, rfl, rfl⟩ := h
  obtain ⟨taken', rfl, rfl⟩ := h'
  exact ⟨taken ++ taken', by simp, by simp⟩

theorem map_eq (h : Spans gs cs rest) : gs.map Glyph.char = cs ++ rest.map Glyph.char := by
  obtain ⟨taken, rfl, rfl⟩ := h
  exact List.map_append

end Spans

variable {gs rest : List Glyph} {first : Char} {start finish : Position}

/-! ### Strings -/

/-- The quotes that close a text. -/
def closing (q : Char) (triple : Bool) : List Char := if triple then [q, q, q] else [q]

theorem spans_stringBody {q : Char} {triple : Bool} {acc : List Char} {r : String × List Glyph}
    (h : stringBody q triple start finish acc gs = .ok r) :
    ∃ cs text, Decodes q triple cs text ∧ r.1 = .ofList (acc.reverse ++ text) ∧
      Spans gs (cs ++ closing q triple) r.2 := by
  -- a quote that is read as part of a text with three quotes around it does not begin their like
  have inside {g : Glyph} {gs : List Glyph} {acc : List Char} (hg : g.char = q)
      (other : ¬ ∃ rest, gs.map Glyph.char = q :: q :: rest)
      (ih : ∃ cs text, Decodes q true cs text ∧ r.1 = .ofList ((q :: acc).reverse ++ text) ∧
        Spans gs (cs ++ closing q true) r.2) :
      ∃ cs text, Decodes q true cs text ∧ r.1 = .ofList (acc.reverse ++ text) ∧
        Spans (g :: gs) (cs ++ closing q true) r.2 := by
    obtain ⟨cs, text, decodes, result, spans⟩ := ih
    refine ⟨q :: cs, q :: text, .quote rfl ?_ decodes, by simp [result], hg ▸ spans.cons g⟩
    rintro ⟨more, quotes⟩
    apply other
    have chars := spans.map_eq
    rw [show cs ++ closing q true = q :: q :: more from quotes.symm] at chars
    exact ⟨_, chars⟩
  fun_induction stringBody q triple start finish acc gs with
  | case1 | case6 | case7 => cases h
  | case2 acc g quote long a b rest closes =>
    subst long
    cases h
    refine ⟨[], [], .nil, by simp, ?_⟩
    have spans := (((Spans.refl rest).cons b).cons a).cons g
    rw [quote, closes.1, closes.2] at spans
    exact spans
  | case3 acc g quote long a b rest other ih =>
    subst long
    refine inside quote ?_ (ih h)
    rintro ⟨more, chars⟩
    simp only [List.map_cons, List.cons.injEq] at chars
    exact other ⟨chars.1, chars.2.1⟩
  | case4 acc g quote long gs short ih =>
    subst long
    refine inside quote ?_ (ih h)
    rintro ⟨more, chars⟩
    obtain ⟨a, as, rfl, -, chars⟩ := List.map_eq_cons_iff.1 chars
    obtain ⟨b, bs, rfl, -, -⟩ := List.map_eq_cons_iff.1 chars
    exact short a b bs rfl
  | case5 acc g gs quote short =>
    cases h
    obtain rfl : triple = false := by simpa using short
    exact ⟨[], [], .nil, by simp, quote ▸ Spans.one g gs⟩
  | case8 acc g other feed backslash e rest ih =>
    obtain ⟨cs, text, decodes, result, spans⟩ := ih h
    refine ⟨'\\' :: e.char :: cs, unescape e.char ++ text, .escape e.char decodes, ?_, ?_⟩
    · simp [result]
    · exact backslash ▸ (spans.cons e).cons g
  | case9 acc g gs other feed plain ih =>
    obtain ⟨cs, text, decodes, result, spans⟩ := ih h
    refine ⟨g.char :: cs, g.char :: text, .plain other plain ?_ decodes, by simp [result],
      spans.cons g⟩
    rintro rfl newline
    simp [newline] at feed

theorem spells_stringLiteral {g : Glyph} {r : String × List Glyph}
    (hq : g.char = '"' ∨ g.char = '\x27') (h : stringLiteral g.char start finish gs = .ok r) :
    ∃ cs, (Kind.str r.1).Spells cs ∧ Spans (g :: gs) cs r.2 := by
  have short (h : stringBody g.char false start finish [] gs = .ok r) :
      ∃ cs, (Kind.str r.1).Spells cs ∧ Spans (g :: gs) cs r.2 := by
    obtain ⟨cs, text, decodes, result, spans⟩ := spans_stringBody h
    refine ⟨g.char :: (cs ++ [g.char]), ?_, spans.cons g⟩
    rw [result]
    exact .str hq decodes
  unfold stringLiteral at h
  split at h
  · next a b rest =>
    split at h
    · next quotes =>
      obtain ⟨cs, text, decodes, result, spans⟩ := spans_stringBody h
      have whole := ((spans.cons b).cons a).cons g
      rw [quotes.1, quotes.2] at whole
      refine ⟨_, ?_, whole⟩
      rw [result]
      exact .longStr hq decodes
    · exact short h
  · exact short h

/-! ### Numbers -/

theorem joined_append (cs ds : List Char) : joined (cs ++ ds) = joined cs ++ joined ds :=
  List.filter_append _ _

theorem joined_cons {c : Char} (cs : List Char) (h : c ≠ '_') :
    joined (c :: cs) = c :: joined cs := by
  simp [joined, h]

theorem IsNumeral.joined {cs : List Char} (h : IsNumeral cs) :
    ∃ d ds, Token.joined cs = d :: ds ∧ ∀ c ∈ d :: ds, c.isDigit = true := by
  cases h with
  | @mk d cs digit all =>
    refine ⟨d, Token.joined cs, joined_cons cs (ne_of_class (by decide) digit), fun c hc => ?_⟩
    rcases List.mem_cons.1 hc with rfl | hc
    · exact digit
    · obtain ⟨hc, other⟩ := List.mem_filter.1 hc
      exact (all c hc).resolve_right (by simpa using other)

theorem spans_digits (gs : List Glyph) :
    ∃ cs, Spans gs cs (digits gs).2 ∧ (∀ c ∈ cs, c.isDigit = true ∨ c = '_') ∧
      (digits gs).1 = joined cs := by
  fun_induction digits gs with
  | case1 | case4 => exact ⟨[], .refl _, List.forall_mem_nil _, rfl⟩
  | case2 g gs digit ds rest eq ih =>
    rw [eq] at ih
    obtain ⟨cs, spans, all, rfl⟩ := ih
    refine ⟨g.char :: cs, spans.cons g, List.forall_mem_cons.2 ⟨.inl digit, all⟩, ?_⟩
    exact (joined_cons cs (ne_of_class (by decide) digit)).symm
  | case3 g gs _ score ih =>
    obtain ⟨cs, spans, all, same⟩ := ih
    refine ⟨g.char :: cs, spans.cons g, List.forall_mem_cons.2 ⟨.inr score, all⟩, ?_⟩
    rw [same, score]
    rfl

/-- The digits from one on. -/
theorem spans_numeral {d : Glyph} (digit : d.char.isDigit = true) (gs : List Glyph) :
    ∃ cs, Spans (d :: gs) cs (digits (d :: gs)).2 ∧ IsNumeral cs ∧
      (digits (d :: gs)).1 = joined cs := by
  obtain ⟨cs, spans, all, same⟩ := spans_digits gs
  refine ⟨d.char :: cs, ?_, .mk digit all, ?_⟩
  · rw [digits, if_pos digit]
    exact spans.cons d
  · rw [digits, if_pos digit, joined_cons cs (ne_of_class (by decide) digit)]
    exact congrArg _ same

theorem spans_fraction (gs : List Glyph) :
    ∃ cs, Spans gs cs (fraction gs).2 ∧ IsFraction cs ∧ (fraction gs).1 = joined cs := by
  unfold fraction
  split
  · next p d rest =>
    split
    · next point =>
      rw [Bool.and_eq_true, decide_eq_true_iff] at point
      obtain ⟨cs, spans, numeral, same⟩ := spans_numeral point.2 rest
      refine ⟨'.' :: cs, point.1 ▸ spans.cons p, .places numeral, ?_⟩
      rw [joined_cons cs (by decide), ← same]
    · exact ⟨[], .refl _, .none, rfl⟩
  · exact ⟨[], .refl _, .none, rfl⟩

/-- The exponent that is read, with its mark in lower case. -/
def lowered : List Char → List Char
  | [] => []
  | _ :: cs => 'e' :: cs

theorem joined_sign {sign : List Char} (h : sign ∈ [[], ['+'], ['-']]) (cs : List Char) :
    joined (sign ++ cs) = sign ++ joined cs := by
  rw [joined_append]
  congr 1
  revert sign
  decide

theorem spans_power (gs : List Glyph) :
    ∃ cs, Spans gs cs (power gs).2 ∧ IsExponent cs ∧ (power gs).1 = joined (lowered cs) := by
  unfold power
  split
  · next e s rest =>
    split
    · next mark =>
      have mark : e.char = 'e' ∨ e.char = 'E' := by simpa using mark
      split
      · next digit =>
        obtain ⟨cs, spans, numeral, same⟩ := spans_numeral digit rest
        refine ⟨e.char :: cs, spans.cons e, .power mark List.mem_cons_self numeral, ?_⟩
        rw [lowered, joined_cons cs (by decide), ← same]
      · split
        · next d more =>
          split
          · next sign =>
            rw [Bool.and_eq_true] at sign
            obtain ⟨sign, digit⟩ := sign
            have sign : [s.char] ∈ [[], ['+'], ['-']] := by simpa using sign
            obtain ⟨cs, spans, numeral, same⟩ := spans_numeral digit more
            refine ⟨e.char :: s.char :: cs, (spans.cons s).cons e, .power mark sign numeral, ?_⟩
            have whole := joined_sign sign cs
            rw [List.singleton_append] at whole
            rw [lowered, joined_cons _ (by decide), whole, ← same]
            rfl
          · exact ⟨[], .refl _, .none, rfl⟩
        · exact ⟨[], .refl _, .none, rfl⟩
    · exact ⟨[], .refl _, .none, rfl⟩
  · exact ⟨[], .refl _, .none, rfl⟩

/-- The mark of an exponent may be in either case. -/
theorem readExponent?_joined {cs : List Char} (h : IsExponent cs) :
    ∃ n, Decimal.readExponent? (joined cs) = some n ∧
      Decimal.readExponent? (joined (lowered cs)) = some n := by
  cases h with
  | none => exact ⟨0, rfl, rfl⟩
  | @power e sign cs mark sign_mem numeral =>
    obtain ⟨d, ds, same, all⟩ := numeral.joined
    have split : ∃ negative, Decimal.splitSign (sign ++ d :: ds) = (negative, d :: ds) := by
      simp only [List.mem_cons, List.not_mem_nil, or_false] at sign_mem
      rcases sign_mem with rfl | rfl | rfl
      · exact ⟨false, splitSign_of_digit (all d List.mem_cons_self)⟩
      · exact ⟨false, rfl⟩
      · exact ⟨true, rfl⟩
    obtain ⟨negative, split⟩ := split
    have reads {e : Char} (mark : e = 'e' ∨ e = 'E') :
        Decimal.readExponent? (joined (e :: (sign ++ cs))) = some
          (if negative then -(Decimal.natOf (d :: ds) : Int) else Decimal.natOf (d :: ds)) := by
      have other : e ≠ '_' := by rcases mark with rfl | rfl <;> decide
      rw [joined_cons _ other, joined_sign sign_mem, same]
      simp only [Decimal.readExponent?, split]
      exact if_pos ⟨mark, rfl, by simpa using all⟩
    exact ⟨_, reads mark, reads (.inl rfl)⟩

/-- The text of an exponent begins with no digit and no point. -/
theorem IsExponent.head {cs : List Char} (h : IsExponent cs) :
    ∀ c ∈ (joined cs).head?, c.isDigit = false ∧ c ≠ '.' := by
  cases h with
  | none => exact fun c hc => nomatch hc
  | @power e sign cs mark =>
    have other : e ≠ '_' := by rcases mark with rfl | rfl <;> decide
    rw [joined_cons _ other]
    rintro c ⟨⟩
    rcases mark with rfl | rfl <;> decide

theorem span_digits {ds cs : List Char} (all : ∀ c ∈ ds, c.isDigit = true)
    (follow : ∀ c ∈ cs.head?, c.isDigit = false) :
    (ds ++ cs).span Char.isDigit = (ds, cs) := by
  have stop : cs.takeWhile Char.isDigit = [] ∧ cs.dropWhile Char.isDigit = cs := by
    cases cs with
    | nil => exact ⟨rfl, rfl⟩
    | cons c cs => simp [follow c rfl]
  rw [List.span_eq_takeWhile_dropWhile, List.takeWhile_append_of_pos all,
    List.dropWhile_append_of_pos all, stop.1, stop.2, List.append_nil]

/-- Digits, with a point and places or without, and an exponent are read as a number. -/
theorem readUnsigned?_of_parts {ds point exponent : List Char} {n : Int} (some : ds ≠ [])
    (all : ∀ c ∈ ds, c.isDigit = true)
    (places : point = [] ∨ ∃ fs, point = '.' :: fs ∧ ∀ c ∈ fs, c.isDigit = true)
    (follow : ∀ c ∈ exponent.head?, c.isDigit = false ∧ c ≠ '.')
    (read : Decimal.readExponent? exponent = .some n) :
    Decimal.readUnsigned? false (ds ++ point ++ exponent) =
      .some (Decimal.nearest false (ds ++ point.tail) (n - point.tail.length)) := by
  have stop : ∀ c ∈ exponent.head?, c.isDigit = false := fun c hc => (follow c hc).1
  have some : ds.isEmpty = false := by simpa using some
  unfold Decimal.readUnsigned?
  rcases places with rfl | ⟨fs, rfl, digits⟩
  · rw [List.append_nil, span_digits all stop]
    dsimp only
    split
    · next rest => exact absurd rfl (follow '.' rfl).2
    · simp [some, read]
  · rw [List.append_assoc, span_digits all (by simp)]
    simp only [List.cons_append, span_digits digits stop]
    simp [some, read]

/-- The text of a number that has a point or an exponent is read as a number. -/
theorem readFloat?_of_parts {whole places exponent : List Char} (hw : IsNumeral whole)
    (hp : IsFraction places) (he : IsExponent exponent) :
    ∃ x, Decimal.readFloat? (joined (whole ++ places ++ exponent)) = some x ∧
      Decimal.readFloat? (joined whole ++ joined places ++ joined (lowered exponent)) = some x := by
  obtain ⟨d, ds, digits, all⟩ := hw.joined
  obtain ⟨n, read, read'⟩ := readExponent?_joined he
  have point : joined places = [] ∨ ∃ fs, joined places = '.' :: fs ∧ ∀ c ∈ fs, c.isDigit = true := by
    cases hp with
    | none => exact .inl rfl
    | places numeral =>
      obtain ⟨f, fs, same, all⟩ := numeral.joined
      exact .inr ⟨f :: fs, by rw [joined_cons _ (by decide), same], all⟩
  have lower : ∀ c ∈ (joined (lowered exponent)).head?, c.isDigit = false ∧ c ≠ '.' := by
    cases he with
    | none => exact fun c hc => nomatch hc
    | power _ sign numeral => exact (IsExponent.power (.inl rfl) sign numeral).head
  have reads {cs : List Char} (follow : ∀ c ∈ cs.head?, c.isDigit = false ∧ c ≠ '.')
      (read : Decimal.readExponent? cs = some n) :
      Decimal.readFloat? (joined whole ++ joined places ++ cs) = some
        (Decimal.nearest false (joined whole ++ (joined places).tail)
          (n - (joined places).tail.length)) := by
    have unsigned := readUnsigned?_of_parts (List.cons_ne_nil d ds) all point follow read
    rw [← digits] at unsigned
    have sign : Decimal.splitSign (joined whole ++ joined places ++ cs) =
        (false, joined whole ++ joined places ++ cs) := by
      rw [digits]
      exact splitSign_of_digit (all d List.mem_cons_self)
    simp only [Decimal.readFloat?, sign, unsigned]
  refine ⟨_, ?_, reads lower read'⟩
  rw [joined_append, joined_append]
  exact reads he.head read

/-- What is read as an integer without a sign is its value. -/
theorem toInt_of_readInt? {d : Char} {ds : List Char} {n : Int64} (digit : d.isDigit = true)
    (h : Decimal.readInt? (d :: ds) = some n) : n.toInt = Decimal.natOf (d :: ds) := by
  unfold Decimal.readInt? at h
  rw [splitSign_of_digit digit] at h
  dsimp only at h
  split at h
  · cases h
  · rw [if_neg Bool.false_ne_true] at h
    exact Decimal.narrow?_eq_some_iff.1 h

theorem IsFraction.joined_eq_nil {cs : List Char} (h : IsFraction cs) (none : joined cs = []) :
    cs = [] := by
  cases h with
  | none => rfl
  | places numeral =>
    rw [joined_cons _ (by decide)] at none
    cases none

theorem joined_lowered_eq_nil {cs : List Char} (none : joined (lowered cs) = []) : cs = [] := by
  cases cs with
  | nil => rfl
  | cons c cs =>
    rw [lowered, joined_cons _ (by decide)] at none
    cases none

theorem spells_numberLiteral {g : Glyph} {r : Kind × List Glyph} (digit : g.char.isDigit = true)
    (h : numberLiteral g.char start gs = .ok r) :
    ∃ cs, r.1.Spells cs ∧ Spans (g :: gs) cs r.2 := by
  obtain ⟨ds, spans, all, wholes⟩ := spans_digits gs
  obtain ⟨ps, spans', fraction, places⟩ := spans_fraction (digits gs).2
  obtain ⟨es, spans'', exponent, power⟩ := spans_power (Token.fraction (digits gs).2).2
  have whole : IsNumeral (g.char :: ds) := .mk digit all
  have passed := ((spans.trans spans').trans spans'').cons g
  have first : g.char :: joined ds = joined (g.char :: ds) :=
    (joined_cons ds (ne_of_class (by decide) digit)).symm
  unfold numberLiteral at h
  dsimp only at h
  rw [wholes, places, power, first] at h
  split at h
  · next none =>
    rw [Bool.and_eq_true, List.isEmpty_iff, List.isEmpty_iff] at none
    obtain rfl := fraction.joined_eq_nil none.1
    obtain rfl := joined_lowered_eq_nil none.2
    rw [List.append_nil, List.append_nil] at passed
    split at h
    · next n value =>
      cases h
      rw [← first] at value
      refine ⟨_, .int whole ?_, passed⟩
      rw [toInt_of_readInt? digit value, first]
    · cases h
  · next part =>
    cases h
    obtain ⟨x, read, read'⟩ := readFloat?_of_parts whole fraction exponent
    rw [read']
    refine ⟨_, .float whole fraction exponent ?_ read, passed⟩
    by_contra none
    rw [not_or, not_not, not_not] at none
    obtain ⟨rfl, rfl⟩ := none
    exact part rfl

/-! ### Words and symbols -/

theorem text_of_ofText? {s : String} {k : Keyword} (h : Keyword.ofText? s = some k) :
    k.text = s := by
  simpa using List.find?_some h

theorem spells_wordKind {s : String} (h : isWord s = true) : (wordKind s).Spells s.toList := by
  unfold wordKind
  split
  · next k found =>
    rw [← text_of_ofText? found]
    exact .keyword k
  · next none => exact .name (Bool.and_eq_true_iff.2 ⟨h, by rw [none]; rfl⟩)

theorem spells_word {g : Glyph} {r : Kind × List Glyph} (begins : isNameStart g.char = true)
    (h : word g.char gs = r) : ∃ cs, r.1.Spells cs ∧ Spans (g :: gs) cs r.2 := by
  subst h
  have spans : Spans gs ((gs.takeWhile fun g => isNamePart g.char).map Glyph.char)
      (word g.char gs).2 := ⟨_, List.takeWhile_append_dropWhile.symm, rfl⟩
  refine ⟨_, ?_, spans.cons g⟩
  rw [← String.toList_ofList (l := g.char :: _)]
  apply spells_wordKind
  refine isWord_iff.2 ⟨_, _, String.toList_ofList, begins, ?_⟩
  rw [List.all_map]
  exact List.all_takeWhile

theorem spans_withAssign {plain assigned : Symbol} {cs : List Char}
    (short : plain.text.toList = cs) (long : assigned.text.toList = cs ++ ['=']) (gs : List Glyph) :
    ∃ more, (withAssign plain assigned gs).1.text.toList = cs ++ more ∧
      Spans gs more (withAssign plain assigned gs).2 := by
  fun_cases withAssign plain assigned gs with
  | case1 | case3 => exact ⟨[], by simp [short], .refl _⟩
  | case2 g gs sign => exact ⟨['='], long, sign ▸ Spans.one g gs⟩

theorem spans_withDouble {c : Char} {plain assigned double doubleAssigned : Symbol}
    {cs : List Char} (short : plain.text.toList = cs) (long : assigned.text.toList = cs ++ ['='])
    (short' : double.text.toList = cs ++ [c]) (long' : doubleAssigned.text.toList = cs ++ [c] ++ ['='])
    (gs : List Glyph) :
    ∃ more, (withDouble c plain assigned double doubleAssigned gs).1.text.toList = cs ++ more ∧
      Spans gs more (withDouble c plain assigned double doubleAssigned gs).2 := by
  fun_cases withDouble c plain assigned double doubleAssigned gs with
  | case1 => exact ⟨[], by simp [short], .refl _⟩
  | case2 g gs sign =>
    obtain ⟨more, text, spans⟩ := spans_withAssign short' long' gs
    exact ⟨c :: more, by rw [text, List.append_assoc]; rfl, sign ▸ spans.cons g⟩
  | case3 g gs => exact spans_withAssign short long (g :: gs)

theorem spans_symbol? {g : Glyph} {s : Symbol} (h : symbol? g.char gs = some (s, rest)) :
    Spans (g :: gs) s.text.toList rest := by
  have one {s : Symbol} (text : s.text.toList = [g.char]) : Spans (g :: gs) s.text.toList gs :=
    text ▸ Spans.one g gs
  have two {s : Symbol} {k : Glyph} {gs : List Glyph} (text : s.text.toList = [g.char, k.char]) :
      Spans (g :: k :: gs) s.text.toList gs := text ▸ (Spans.one k gs).cons g
  have more {r : Symbol × List Glyph} (same : r = (s, rest))
      (spans : ∃ more, r.1.text.toList = [g.char] ++ more ∧ Spans gs more r.2) :
      Spans (g :: gs) s.text.toList rest := by
    subst same
    obtain ⟨more, text, spans⟩ := spans
    rw [text]
    exact spans.cons g
  unfold symbol? at h
  split at h
  case h_1 c | h_5 c | h_6 c | h_7 c | h_8 c =>
    exact more (Option.some.inj h) (spans_withAssign (by rw [c]; rfl) (by rw [c]; rfl) gs)
  case h_2 c =>
    split at h
    · next k gs =>
      split at h
      · next arrow =>
        cases h
        exact two (by rw [c, arrow]; rfl)
      · exact more (Option.some.inj h) (spans_withAssign (by rw [c]; rfl) (by rw [c]; rfl) _)
    · cases h
      exact one (by rw [c]; rfl)
  case h_3 c | h_4 c =>
    exact more (Option.some.inj h) (spans_withDouble (by rw [c]; rfl) (by rw [c]; rfl)
      (by rw [c]; rfl) (by rw [c]; rfl) gs)
  case h_9 c =>
    split at h
    · next k gs =>
      split at h
      · next sign =>
        cases h
        exact two (by rw [c, sign]; rfl)
      · cases h
    · cases h
  case h_19 => cases h
  all_goals
    next c =>
    cases h
    exact one (by rw [c]; rfl)

/-! ### Tokens -/

section

variable {depth : Nat} {g : Glyph} {r : Read}

/-- What is read at a glyph is spelled there. -/
theorem spells_read (h : read finish depth g gs = .ok r) :
    ∃ cs, r.kind.Spells cs ∧ Spans (g :: gs) cs r.rest := by
  rcases read_cases h with ⟨text, quote, literal, kind, -⟩ | ⟨digit, literal, -⟩ |
    ⟨begins, literal, -⟩ | ⟨s, found, kind, -⟩
  · obtain ⟨cs, spells, spans⟩ := spells_stringLiteral quote literal
    exact ⟨cs, kind ▸ spells, spans⟩
  · exact spells_numberLiteral digit literal
  · exact spells_word begins literal
  · exact ⟨s.text.toList, kind ▸ .symbol s, spans_symbol? found⟩

/-- The bracket depth changes as the token says. -/
theorem depth_of_read (h : read finish depth g gs = .ok r) :
    r.kind.depthAfter? depth = some r.depth := by
  rcases read_cases h with ⟨text, -, -, kind, same⟩ | ⟨digit, literal, same⟩ | ⟨-, literal, same⟩ |
    ⟨s, -, kind, after⟩
  · rw [kind, same]
    rfl
  · unfold numberLiteral at literal
    dsimp only at literal
    split at literal
    · split at literal
      · obtain ⟨kind, -⟩ := Prod.mk.inj (Except.ok.inj literal)
        rw [← kind, same]
        rfl
      · cases literal
    · obtain ⟨kind, -⟩ := Prod.mk.inj (Except.ok.inj literal)
      rw [← kind, same]
      rfl
  · have kind : wordKind _ = r.kind := congrArg Prod.fst literal
    rw [← kind, same]
    unfold wordKind
    split <;> rfl
  · rw [kind]
    exact after

theorem Kind.Spells.isLayout {k : Kind} {cs : List Char} (h : k.Spells cs) : k.isLayout = false := by
  cases h <;> rfl

end

end Footprint.Token
