import Footprint.Proofs.ScanSteps
import Footprint.Text.Quoted

set_option autoImplicit false

/-!
Tokens written as text and read back. A token that is written is read as itself if the text after it
begins with a character that no longer token goes on with.
-/

namespace Footprint.Token

/-- The text begins and goes on as names do. -/
def isWord (s : String) : Bool :=
  match s.toList with
  | [] => false
  | c :: cs => isNameStart c && cs.all isNamePart

def isIdentifier (s : String) : Bool := isWord s && (Keyword.ofText? s).isNone

/-- Characters with which no token goes on, except that a text in quotes may hold them. -/
def separators : List Char := [' ', '\n', '(', ')', '[', ']', ',', ':']

namespace Kind

/-- The token as it is written; a layout token has no text of its own. -/
def spelling : Kind → List Char
  | int n => Nat.toDigits 10 n.toInt.toNat
  | float _ => []
  | str s => Text.quotedChars s.toList
  | name s => s.toList
  | mark (.keyword k) => k.text.toList
  | mark (.symbol s) => s.text.toList
  | mark _ => []

/-- The token can be written: integers have no sign of their own. -/
def isWritable : Kind → Bool
  | int n => decide (0 ≤ n.toInt)
  | float _ => false
  | str _ => true
  | name s => isIdentifier s
  | mark m => !m.isLayout

/-- No longer symbol begins with the token, so that anything may follow. -/
def isClosed : Kind → Bool
  | mark (.symbol .openParen) | mark (.symbol .closeParen) | mark (.symbol .openBracket)
  | mark (.symbol .closeBracket) | mark (.symbol .comma) | mark (.symbol .colon)
  | mark (.symbol .dot) | mark (.symbol .semicolon) | mark (.symbol .atSign) => true
  | _ => false

def isInt : Kind → Bool
  | int _ => true
  | _ => false

def isSign : Kind → Bool
  | mark (.symbol .plus) | mark (.symbol .minus) => true
  | _ => false

/-- The token is read no further than up to the character. -/
def EndsBefore (k : Kind) (c : Char) : Prop :=
  c ∈ separators ∨ c = '.' ∧ k.isInt = false ∨ c.isDigit = true ∧ k.isSign = true

/-- Where the text follows, the token is read no further. -/
def Stops (k : Kind) (cs : List Char) : Prop := k.isClosed = true ∨ ∀ c ∈ cs.head?, k.EndsBefore c

theorem Stops.follow {k : Kind} {cs : List Char} (h : k.Stops cs) (opened : k.isClosed = false) :
    ∀ c ∈ cs.head?, k.EndsBefore c := by
  rcases h with closed | follow
  · rw [closed] at opened
    cases opened
  · exact follow

/-- The bracket depth after the token. -/
def depthAfter? (depth : Nat) : Kind → Option Nat
  | mark (.symbol s) => Token.depthAfter? depth s
  | _ => some depth

end Kind

/-! ### Strings -/

section

variable {q c : Char} {body cs acc : List Char} {start finish : Position} {gs : List Glyph}

/-- A character in quotes stands for itself or is escaped. -/
theorem quotedChar_cases (hq : q = '"' ∨ q = '\x27') (c : Char) :
    (∃ e, Text.quotedChar q c = ['\\', e] ∧ unescape e = [c]) ∨
      Text.quotedChar q c = [c] ∧ c ≠ q ∧ c ≠ '\n' ∧ c ≠ '\\' := by
  unfold Text.quotedChar
  split
  · next h => exact .inl ⟨'\\', rfl, by rw [h]; rfl⟩
  split
  · next h => exact .inl ⟨'n', rfl, by rw [h]; rfl⟩
  split
  · next h => exact .inl ⟨'t', rfl, by rw [h]; rfl⟩
  split
  · next h => exact .inl ⟨'r', rfl, by rw [h]; rfl⟩
  split
  · next h =>
    subst h
    exact .inl ⟨c, rfl, by rcases hq with rfl | rfl <;> rfl⟩
  · next escape feed _ _ closing => exact .inr ⟨rfl, closing, feed, escape⟩

theorem stringBody_quotedChar (hq : q = '"' ∨ q = '\x27')
    (h : gs.map Glyph.char = Text.quotedChar q c ++ cs) :
    ∃ rest, rest.map Glyph.char = cs ∧
      stringBody q false start finish acc gs = stringBody q false start finish (c :: acc) rest := by
  rcases quotedChar_cases hq c with ⟨e, quoted, escape⟩ | ⟨quoted, closing, feed, escape⟩
  · rw [quoted] at h
    obtain ⟨g, _, rfl, first, h⟩ := List.map_eq_cons_iff.1 h
    obtain ⟨k, rest, rfl, rfl, after⟩ := List.map_eq_cons_iff.1 h
    refine ⟨rest, after, ?_⟩
    have closing : '\\' ≠ q := by rcases hq with rfl | rfl <;> decide
    rw [stringBody.eq_def]
    dsimp only
    rw [first, if_neg closing, if_neg (by decide), if_pos rfl, escape]
    rfl
  · rw [quoted] at h
    obtain ⟨g, rest, rfl, first, after⟩ := List.map_eq_cons_iff.1 h
    refine ⟨rest, after, ?_⟩
    rw [stringBody.eq_def]
    dsimp only
    rw [first, if_neg closing, if_neg (by simp [feed]), if_neg escape]

theorem stringBody_quoted (start finish : Position) (acc : List Char) (hq : q = '"' ∨ q = '\x27')
    (h : gs.map Glyph.char = body.flatMap (Text.quotedChar q) ++ q :: cs) :
    ∃ rest, rest.map Glyph.char = cs ∧
      stringBody q false start finish acc gs = .ok (String.ofList (acc.reverse ++ body), rest) := by
  induction body generalizing gs acc with
  | nil =>
    obtain ⟨g, rest, rfl, first, after⟩ := List.map_eq_cons_iff.1 h
    refine ⟨rest, after, ?_⟩
    rw [stringBody.eq_def]
    dsimp only
    rw [if_pos first, if_neg Bool.false_ne_true, List.append_nil]
  | cons c body ih =>
    rw [List.flatMap_cons, List.append_assoc] at h
    obtain ⟨between, h, first⟩ := stringBody_quotedChar hq h
    obtain ⟨rest, after, others⟩ := ih (c :: acc) h
    refine ⟨rest, after, ?_⟩
    rw [first, others, List.reverse_cons, List.append_assoc]
    rfl

/-- Two quotes in a row begin a long string or are an empty one; otherwise the string is short. -/
theorem stringLiteral_short (h : ∀ cs, gs.map Glyph.char ≠ q :: q :: cs) :
    stringLiteral q start finish gs = stringBody q false start finish [] gs := by
  unfold stringLiteral
  split
  · next a b rest =>
    rw [if_neg]
    rintro ⟨first, second⟩
    exact h (rest.map Glyph.char) (by simp [first, second])
  · rfl

theorem delimiter_cases (cs : List Char) :
    Text.delimiter cs = '"' ∨ Text.delimiter cs = '\x27' := by
  unfold Text.delimiter
  split
  · exact .inl rfl
  · exact .inr rfl

theorem stringLiteral_quoted (start finish : Position) (hq : q = '"' ∨ q = '\x27')
    (follow : cs.head? ≠ some q)
    (h : gs.map Glyph.char = body.flatMap (Text.quotedChar q) ++ q :: cs) :
    ∃ rest, rest.map Glyph.char = cs ∧
      stringLiteral q start finish gs = .ok (String.ofList body, rest) := by
  obtain ⟨rest, after, read⟩ := stringBody_quoted start finish [] hq h
  refine ⟨rest, after, ?_⟩
  rw [stringLiteral_short, read]
  · rfl
  · intro ds twice
    rw [h] at twice
    cases body with
    | nil =>
      apply follow
      rw [(List.cons.inj twice).2]
      rfl
    | cons c body =>
      rw [List.flatMap_cons] at twice
      rcases quotedChar_cases hq c with ⟨e, quoted, -⟩ | ⟨quoted, closing, -⟩
      · rw [quoted] at twice
        have closing : '\\' ≠ q := by rcases hq with rfl | rfl <;> decide
        exact closing (List.cons.inj twice).1
      · rw [quoted] at twice
        exact closing (List.cons.inj twice).1

end

/-! ### Numbers -/

section

variable {ds cs : List Char} {gs : List Glyph}

theorem digits_of_text (all : ∀ c ∈ ds, c.isDigit = true)
    (follow : ∀ c ∈ cs.head?, c.isDigit = false ∧ c ≠ '_') (h : gs.map Glyph.char = ds ++ cs) :
    ∃ rest, rest.map Glyph.char = cs ∧ digits gs = (ds, rest) := by
  induction ds generalizing gs with
  | nil =>
    refine ⟨gs, h, ?_⟩
    cases gs with
    | nil => rfl
    | cons g gs =>
      obtain rfl : g.char :: gs.map Glyph.char = cs := h
      obtain ⟨digit, score⟩ := follow g.char rfl
      rw [digits, digit, if_neg Bool.false_ne_true, if_neg score]
  | cons c ds ih =>
    obtain ⟨g, gs, rfl, rfl, others⟩ := List.map_eq_cons_iff.1 h
    obtain ⟨rest, after, read⟩ := ih (fun c hc => all c (List.mem_cons_of_mem _ hc)) others
    refine ⟨rest, after, ?_⟩
    rw [digits, if_pos (all _ List.mem_cons_self), read]

theorem fraction_of_text (follow : cs.head? ≠ some '.') (h : gs.map Glyph.char = cs) :
    fraction gs = ([], gs) := by
  unfold fraction
  split
  · next p d rest =>
    rw [if_neg]
    intro point
    rw [Bool.and_eq_true, decide_eq_true_iff] at point
    apply follow
    rw [← h, ← point.1]
    rfl
  · rfl

theorem power_of_text (follow : ∀ c ∈ cs.head?, c ≠ 'e' ∧ c ≠ 'E')
    (h : gs.map Glyph.char = cs) : power gs = ([], gs) := by
  unfold power
  split
  · next e s rest =>
    obtain ⟨lower, upper⟩ := follow e.char (by rw [← h]; rfl)
    rw [if_neg (by simp [lower, upper])]
  · rfl

theorem natOf_toDigits (n : Nat) : Decimal.natOf (Nat.toDigits 10 n) = n :=
  Nat.ofDigitChars_toDigits (by decide) (by decide)

theorem isDigit_of_mem_toDigits {n : Nat} {c : Char} (h : c ∈ Nat.toDigits 10 n) :
    c.isDigit = true := Nat.isDigit_of_mem_toDigits (by decide) (by decide) h

/-- Digits are read as they are written, without a sign. -/
theorem splitSign_of_digit {c : Char} (digit : c.isDigit = true) :
    Decimal.splitSign (c :: cs) = (false, c :: cs) := by
  unfold Decimal.splitSign
  split
  · next h => exact absurd (List.cons.inj h).1 (ne_of_class (by decide) digit)
  · next h => exact absurd (List.cons.inj h).1 (ne_of_class (by decide) digit)
  · rfl

theorem readInt?_toDigits {n : Int64} (h : 0 ≤ n.toInt) :
    Decimal.readInt? (Nat.toDigits 10 n.toInt.toNat) = some n := by
  obtain ⟨d, ds, digits⟩ := List.exists_cons_of_ne_nil
    (Nat.toDigits_ne_nil (b := 10) (n := n.toInt.toNat))
  have all : ∀ c ∈ d :: ds, c.isDigit = true := fun c hc => isDigit_of_mem_toDigits (digits ▸ hc)
  have value : (Decimal.natOf (d :: ds) : Int) = n.toInt := by
    rw [← digits, natOf_toDigits]
    exact Int.toNat_of_nonneg h
  rw [digits]
  unfold Decimal.readInt?
  rw [splitSign_of_digit (all d List.mem_cons_self)]
  dsimp only
  rw [if_neg (by simpa using all), if_neg Bool.false_ne_true, value, Decimal.narrow?_toInt]

theorem numberLiteral_of_text {first : Char} {n : Int64} (start : Position)
    (digits : first :: ds = Nat.toDigits 10 n.toInt.toNat) (unsigned : 0 ≤ n.toInt)
    (follow : ∀ c ∈ cs.head?, c ∈ separators) (h : gs.map Glyph.char = ds ++ cs) :
    ∃ rest, rest.map Glyph.char = cs ∧ numberLiteral first start gs = .ok (.int n, rest) := by
  have all : ∀ c ∈ ds, c.isDigit = true :=
    fun c hc => isDigit_of_mem_toDigits (digits ▸ List.mem_cons_of_mem _ hc)
  have other {p : Char → Prop} (hp : separators.Forall p) : ∀ c ∈ cs.head?, p c :=
    fun c hc => List.forall_iff_forall_mem.1 hp c (follow c hc)
  obtain ⟨rest, after, read⟩ := digits_of_text all (other (by decide)) h
  refine ⟨rest, after, ?_⟩
  have point : cs.head? ≠ some '.' := fun h => absurd (follow _ h) (by decide)
  unfold numberLiteral
  rw [read]
  dsimp only
  rw [fraction_of_text point after]
  dsimp only
  rw [power_of_text (other (by decide)) after, digits, readInt?_toDigits unsigned]
  rfl

end

/-! ### Words -/

section

variable {c : Char} {part cs : List Char} {gs : List Glyph}

theorem word_of_text (all : part.all isNamePart = true)
    (follow : ∀ c ∈ cs.head?, isNamePart c = false) (h : gs.map Glyph.char = part ++ cs) :
    ∃ rest, rest.map Glyph.char = cs ∧
      word c gs = (wordKind (String.ofList (c :: part)), rest) := by
  obtain ⟨front, rest, rfl, rfl, after⟩ := List.map_eq_append_iff.1 h
  refine ⟨rest, after, ?_⟩
  have inside : ∀ g ∈ front, isNamePart g.char = true := by simpa using all
  have stop : rest.takeWhile (fun g => isNamePart g.char) = [] ∧
      rest.dropWhile (fun g => isNamePart g.char) = rest := by
    cases rest with
    | nil => exact ⟨rfl, rfl⟩
    | cons g rest =>
      have other : isNamePart g.char = false := follow g.char (by rw [← after]; rfl)
      simp [other]
  unfold word
  rw [List.takeWhile_append_of_pos inside, List.dropWhile_append_of_pos inside, stop.1, stop.2,
    List.append_nil]

theorem isNameStart_eq_false_of_isDigit (digit : c.isDigit = true) :
    isNameStart c = false := by
  have range : 48 ≤ c.val.toNat ∧ c.val.toNat ≤ 57 := Char.isDigit_iff_toNat.1 digit
  have score : c ≠ '_' := ne_of_class (by decide) digit
  have upper : c.isUpper = false := by
    refine decide_eq_false ?_
    rintro ⟨least, -⟩
    have : 65 ≤ c.val.toNat := least
    omega
  have lower : c.isLower = false := by
    refine Bool.and_eq_false_iff.2 (.inl (decide_eq_false fun least => ?_))
    have : 97 ≤ c.val.toNat := least
    omega
  have letter : c.isAlpha = false := Bool.or_eq_false_iff.2 ⟨upper, lower⟩
  have small : c.toNat < 0x80 := Nat.lt_of_le_of_lt range.2 (by decide)
  simp [isNameStart, Text.isAlphabetic, small, letter, score]

end

/-! ### Symbols -/

/-- What follows a symbol does not make it a longer one. -/
theorem Kind.Stops.not_longer {k : Kind} {cs : List Char} (h : k.Stops cs)
    (opened : k.isClosed = false) :
    ∀ c ∈ cs.head?, c ≠ '=' ∧ c ≠ '>' ∧ c ≠ '*' ∧ c ≠ '/' := by
  intro c hc
  rcases h.follow opened c hc with separator | ⟨rfl, -⟩ | ⟨digit, -⟩
  · have all : separators.Forall fun c => c ≠ '=' ∧ c ≠ '>' ∧ c ≠ '*' ∧ c ≠ '/' := by decide
    exact List.forall_iff_forall_mem.1 all c separator
  · decide
  · refine ⟨?_, ?_, ?_, ?_⟩ <;> exact ne_of_class (by decide) digit

theorem withAssign_short {plain assigned : Symbol} {gs : List Glyph}
    (h : ∀ g ∈ gs.head?, g.char ≠ '=') : withAssign plain assigned gs = (plain, gs) := by
  cases gs with
  | nil => rfl
  | cons g gs => exact if_neg (h g rfl)

theorem withDouble_short {c : Char} {plain assigned double doubleAssigned : Symbol}
    {gs : List Glyph}
    (h : ∀ g ∈ gs.head?, g.char ≠ '=' ∧ g.char ≠ c) :
    withDouble c plain assigned double doubleAssigned gs = (plain, gs) := by
  cases gs with
  | nil => rfl
  | cons g gs =>
    rw [withDouble, if_neg (h g rfl).2]
    exact withAssign_short fun k hk => (h k hk).1

theorem symbol?_text {s : Symbol} {c : Char} {cs ds : List Char} {gs : List Glyph}
    (spelled : s.text.toList = c :: cs) (stops : (Kind.mark (.symbol s)).Stops ds)
    (h : gs.map Glyph.char = cs ++ ds) :
    ∃ rest, rest.map Glyph.char = ds ∧ symbol? c gs = some (s, rest) := by
  obtain ⟨front, rest, rfl, rfl, rfl⟩ := List.map_eq_append_iff.1 h
  refine ⟨rest, rfl, ?_⟩
  have follow : (Kind.mark (.symbol s)).isClosed = false →
      ∀ g ∈ rest.head?, g.char ≠ '=' ∧ g.char ≠ '>' ∧ g.char ≠ '*' ∧ g.char ≠ '/' := by
    intro opened g hg
    exact stops.not_longer opened g.char (by simpa using ⟨g, hg, rfl⟩)
  cases s with
  | openParen | closeParen | openBracket | closeBracket | comma | colon | dot | semicolon
  | atSign =>
    obtain ⟨rfl, rest'⟩ := List.cons.inj spelled
    obtain rfl := List.map_eq_nil_iff.1 rest'.symm
    rfl
  | plus | percent | assign | less | greater =>
    obtain ⟨rfl, rest'⟩ := List.cons.inj spelled
    obtain rfl := List.map_eq_nil_iff.1 rest'.symm
    exact congrArg some (withAssign_short fun g hg => (follow rfl g hg).1)
  | star | slash  =>
    obtain ⟨rfl, rest'⟩ := List.cons.inj spelled
    obtain rfl := List.map_eq_nil_iff.1 rest'.symm
    refine congrArg some (withDouble_short fun g hg => ?_)
    have := follow rfl g hg
    exact ⟨this.1, by simp [this]⟩
  | minus =>
    obtain ⟨rfl, nil⟩ := List.cons.inj spelled
    obtain rfl := List.map_eq_nil_iff.1 nil.symm
    cases rest with
    | nil => rfl
    | cons g rest =>
      have other := follow rfl g rfl
      change (if g.char = '>' then _ else _) = _
      rw [if_neg other.2.1]
      exact congrArg some (if_neg other.1)
  | plusAssign | minusAssign | slashAssign | starAssign | percentAssign | equal | notEqual
  | lessEqual | greaterEqual | arrow =>
    simp only [Symbol.text, String.reduceToList, List.cons.injEq] at spelled
    obtain ⟨rfl, one⟩ := spelled
    obtain ⟨g, _, rfl, first, nil⟩ := List.map_eq_cons_iff.1 one.symm
    obtain rfl := List.map_eq_nil_iff.1 nil
    simp [symbol?, withAssign, withDouble, first]
  | doubleSlash | doubleStar =>
    simp only [Symbol.text, String.reduceToList, List.cons.injEq] at spelled
    obtain ⟨rfl, one⟩ := spelled
    obtain ⟨g, _, rfl, first, nil⟩ := List.map_eq_cons_iff.1 one.symm
    obtain rfl := List.map_eq_nil_iff.1 nil
    exact congrArg some ((if_pos first).trans (withAssign_short fun g hg => (follow rfl g hg).1))
  | doubleSlashAssign | doubleStarAssign =>
    simp only [Symbol.text, String.reduceToList, List.cons.injEq] at spelled
    obtain ⟨rfl, two⟩ := spelled
    obtain ⟨g, _, rfl, first, one⟩ := List.map_eq_cons_iff.1 two.symm
    obtain ⟨k, _, rfl, second, nil⟩ := List.map_eq_cons_iff.1 one
    obtain rfl := List.map_eq_nil_iff.1 nil
    simp [symbol?, withAssign, withDouble, first, second]

/-! ### Tokens -/

theorem isWord_iff {s : String} :
    isWord s = true ↔
      ∃ c cs, s.toList = c :: cs ∧ isNameStart c = true ∧ cs.all isNamePart = true := by
  unfold isWord
  cases s.toList with
  | nil => simp
  | cons c cs => simp

theorem isWord_text (k : Keyword) : isWord k.text = true := by cases k <;> decide

theorem wordKind_text (k : Keyword) : wordKind k.text = .mark (.keyword k) := by
  rw [wordKind, Keyword.ofText?_text]

theorem wordKind_of_isIdentifier {s : String} (h : isIdentifier s = true) :
    wordKind s = .name s := by
  rw [isIdentifier, Bool.and_eq_true, Option.isNone_iff_eq_none] at h
  rw [wordKind, h.2]

/-- A symbol begins with a character that begins nothing else. -/
theorem Symbol.text_eq_cons (s : Symbol) :
    ∃ c cs, s.text.toList = c :: cs ∧ c ≠ '"' ∧ c ≠ '\x27' ∧ c.isDigit = false ∧
      isNameStart c = false := by
  cases s <;> exact ⟨_, _, rfl, by decide⟩

section

variable {finish : Position} {depth depth' : Nat} {g : Glyph} {gs : List Glyph} {cs : List Char}

theorem read_word {s : String} (word : isWord s = true)
    (follow : ∀ c ∈ cs.head?, isNamePart c = false)
    (h : (g :: gs).map Glyph.char = s.toList ++ cs) :
    ∃ rest, rest.map Glyph.char = cs ∧ read finish depth g gs = .ok ⟨wordKind s, depth, rest⟩ := by
  obtain ⟨c, part, chars, begins, all⟩ := isWord_iff.1 word
  rw [chars] at h
  obtain ⟨rfl, others⟩ := List.cons.inj h
  obtain ⟨rest, after, read⟩ := word_of_text (c := g.char) all follow others
  refine ⟨rest, after, ?_⟩
  have quote : ¬ (g.char = '"' ∨ g.char = '\x27') := by
    rintro (h | h) <;> rw [h] at begins <;> exact absurd begins (by decide)
  have digit : ¬ g.char.isDigit = true := by
    intro digit
    rw [isNameStart_eq_false_of_isDigit digit] at begins
    cases begins
  rw [Token.read, if_neg quote, if_neg digit, if_pos begins, read, ← chars, String.ofList_toList]

theorem read_str {text : String} (stops : (Kind.str text).Stops cs)
    (h : (g :: gs).map Glyph.char = (Kind.str text).spelling ++ cs) :
    ∃ rest, rest.map Glyph.char = cs ∧ read finish depth g gs = .ok ⟨.str text, depth, rest⟩ := by
  have quote : g.char = '"' ∨ g.char = '\x27' := by
    rw [(List.cons.inj h).1]
    exact delimiter_cases text.toList
  have follow : cs.head? ≠ some g.char := by
    intro same
    rcases stops.follow rfl g.char same with separator | ⟨point, -⟩ | ⟨-, sign⟩
    · rcases quote with quote | quote <;> rw [quote] at separator <;>
        exact absurd separator (by decide)
    · rcases quote with quote | quote <;> rw [quote] at point <;> exact absurd point (by decide)
    · cases sign
  obtain ⟨first, others⟩ := List.cons.inj h
  have others : gs.map Glyph.char =
      text.toList.flatMap (Text.quotedChar g.char) ++ g.char :: cs := by
    rw [others, ← first]
    exact List.append_assoc _ [g.char] cs
  obtain ⟨rest, after, read⟩ :=
    stringLiteral_quoted g.pos finish quote follow others
  refine ⟨rest, after, ?_⟩
  rw [Token.read, if_pos quote, read, String.ofList_toList]
  rfl

theorem read_int {n : Int64} (unsigned : 0 ≤ n.toInt) (stops : (Kind.int n).Stops cs)
    (h : (g :: gs).map Glyph.char = (Kind.int n).spelling ++ cs) :
    ∃ rest, rest.map Glyph.char = cs ∧ read finish depth g gs = .ok ⟨.int n, depth, rest⟩ := by
  obtain ⟨d, ds, digits⟩ :=
    List.exists_cons_of_ne_nil (Nat.toDigits_ne_nil (b := 10) (n := n.toInt.toNat))
  rw [Kind.spelling, digits] at h
  obtain ⟨rfl, others⟩ := List.cons.inj h
  have digit : g.char.isDigit = true :=
    isDigit_of_mem_toDigits (digits ▸ List.mem_cons_self)
  have quote : ¬ (g.char = '"' ∨ g.char = '\x27') := by
    rintro (h | h) <;> rw [h] at digit <;> exact absurd digit (by decide)
  have follow : ∀ c ∈ cs.head?, c ∈ separators := by
    intro c hc
    rcases stops.follow rfl c hc with separator | ⟨-, other⟩ | ⟨-, sign⟩
    · exact separator
    · cases other
    · cases sign
  obtain ⟨rest, after, read⟩ :=
    numberLiteral_of_text g.pos digits.symm unsigned follow others
  refine ⟨rest, after, ?_⟩
  rw [Token.read, if_neg quote, if_pos digit, read]
  rfl

theorem read_symbol {s : Symbol} (stops : (Kind.mark (.symbol s)).Stops cs)
    (deep : Token.depthAfter? depth s = some depth')
    (h : (g :: gs).map Glyph.char = s.text.toList ++ cs) :
    ∃ rest, rest.map Glyph.char = cs ∧
      read finish depth g gs = .ok ⟨.mark (.symbol s), depth', rest⟩ := by
  obtain ⟨c, part, chars, double, single, digit, begins⟩ := s.text_eq_cons
  rw [chars] at h
  obtain ⟨rfl, others⟩ := List.cons.inj h
  obtain ⟨rest, after, found⟩ := symbol?_text chars stops others
  refine ⟨rest, after, ?_⟩
  rw [Token.read, if_neg (not_or.2 ⟨double, single⟩), digit, begins, if_neg Bool.false_ne_true,
    if_neg Bool.false_ne_true, found]
  dsimp only
  rw [deep]

/-- A token is read as it is written. -/
theorem read_spelling {k : Kind} (finish : Position) (writable : k.isWritable = true)
    (stops : k.Stops cs)
    (deep : k.depthAfter? depth = some depth')
    (h : (g :: gs).map Glyph.char = k.spelling ++ cs) :
    ∃ rest, rest.map Glyph.char = cs ∧ read finish depth g gs = .ok ⟨k, depth', rest⟩ := by
  have notPart (opened : k.isClosed = false) (unsigned : k.isSign = false) :
      ∀ c ∈ cs.head?, isNamePart c = false := by
    intro c hc
    rcases stops.follow opened c hc with separator | ⟨rfl, -⟩ | ⟨-, sign⟩
    · have all : separators.Forall fun c => isNamePart c = false := by decide
      exact List.forall_iff_forall_mem.1 all c separator
    · decide
    · rw [unsigned] at sign
      cases sign
  cases k with
  | int n =>
    obtain rfl := Option.some.inj deep
    exact read_int (of_decide_eq_true writable) stops h
  | float x => cases writable
  | str text =>
    obtain rfl := Option.some.inj deep
    exact read_str stops h
  | name s =>
    obtain rfl := Option.some.inj deep
    have identifier : isIdentifier s = true := writable
    have word : isWord s = true := (Bool.and_eq_true_iff.1 identifier).1
    rw [← wordKind_of_isIdentifier identifier]
    exact read_word word (notPart rfl rfl) h
  | mark m =>
    cases m with
    | keyword k =>
      obtain rfl := Option.some.inj deep
      rw [← wordKind_text]
      exact read_word (isWord_text k) (notPart rfl rfl) h
    | symbol s => exact read_symbol stops deep h
    | newline | indent | dedent | endOfFile => cases writable

end

/-- What a scan passes over between tokens begins with one of these. -/
def blanks : List Char := [' ', '\t', '\r', '\x0c', '#', '\\', '\n']

theorem spelling_eq_cons {k : Kind} (writable : k.isWritable = true) :
    ∃ c cs, k.spelling = c :: cs ∧ c ∉ blanks := by
  have digit {c : Char} (h : c.isDigit = true) : c ∉ blanks := fun blank => by
    have all : blanks.Forall fun c => c.isDigit = false := by decide
    exact Bool.false_ne_true ((List.forall_iff_forall_mem.1 all c blank).symm.trans h)
  have start {c : Char} (h : isNameStart c = true) : c ∉ blanks := fun blank => by
    have all : blanks.Forall fun c => isNameStart c = false := by decide
    exact Bool.false_ne_true ((List.forall_iff_forall_mem.1 all c blank).symm.trans h)
  have word {s : String} (h : isWord s = true) : ∃ c cs, s.toList = c :: cs ∧ c ∉ blanks := by
    obtain ⟨c, cs, chars, begins, -⟩ := isWord_iff.1 h
    exact ⟨c, cs, chars, start begins⟩
  cases k with
  | int n =>
    obtain ⟨d, ds, digits⟩ :=
      List.exists_cons_of_ne_nil (Nat.toDigits_ne_nil (b := 10) (n := n.toInt.toNat))
    exact ⟨d, ds, digits, digit (isDigit_of_mem_toDigits (digits ▸ List.mem_cons_self))⟩
  | float x => cases writable
  | str text =>
    refine ⟨Text.delimiter text.toList, _, rfl, ?_⟩
    rcases delimiter_cases text.toList with h | h <;> rw [h] <;> decide
  | name s => exact word (Bool.and_eq_true_iff.1 writable).1
  | mark m =>
    cases m with
    | keyword k => exact word (isWord_text k)
    | symbol s => cases s <;> exact ⟨_, _, rfl, by decide⟩
    | newline | indent | dedent | endOfFile => cases writable

end Footprint.Token
