import Footprint.Decimal.Reading
import Footprint.Text.Alphabetic
import Footprint.Text.Numeric
import Footprint.Token.Error
import Footprint.Token.Glyph
import Footprint.Token.Kind

set_option autoImplicit false

/-!
Scanning a text into tokens. Indentation becomes indent and dedent tokens, the end of a logical line
a newline token; blanks, comments, blank lines and line joinings leave no token. Inside brackets a
line feed is a blank.

Each scanner takes the glyphs ahead and gives back those it leaves; `length_…_le` says that it
leaves no more than it got, which is why the scan ends.
-/

namespace Footprint.Token

/-- The column that a tab moves to: the next multiple of eight. -/
def tabStop (column : Nat) : Nat := (column / 8 + 1) * 8

/-- The indentation of a line, from the column reached so far, and what follows it. -/
def margin (column : Nat) : List Glyph → Nat × List Glyph
  | [] => (column, [])
  | g :: gs =>
    if g.char = ' ' then margin (column + 1) gs
    else if g.char = '\t' then margin (tabStop column) gs
    else if g.char = '\x0c' then margin 0 gs
    else (column, g :: gs)

theorem length_margin_le (column : Nat) (gs : List Glyph) :
    (margin column gs).2.length ≤ gs.length := by
  fun_induction margin column gs <;> simp_all <;> omega

/-- What follows a comment: the line feed that ends it, or nothing. -/
def afterComment (gs : List Glyph) : List Glyph := gs.dropWhile (·.char ≠ '\n')

theorem length_afterComment_le (gs : List Glyph) : (afterComment gs).length ≤ gs.length :=
  (List.dropWhile_sublist _).length_le

/-- Skips blanks, comments and joined line ends; `comment` says that a comment is being skipped. -/
def afterBlanks (comment : Bool) : List Glyph → List Glyph
  | [] => []
  | g :: gs =>
    if comment && g.char ≠ '\n' then afterBlanks true gs
    else if g.char = ' ' || g.char = '\t' || g.char = '\r' || g.char = '\x0c' then
      afterBlanks false gs
    else if g.char = '#' then afterBlanks true gs
    else if g.char = '\\' then
      match gs with
      | a :: as =>
        if a.char = '\n' then afterBlanks false as
        else
          match as with
          | b :: bs =>
            if a.char = '\r' ∧ b.char = '\n' then afterBlanks false bs else g :: a :: b :: bs
          | [] => [g, a]
      | [] => [g]
    else g :: gs

theorem length_afterBlanks_le (comment : Bool) (gs : List Glyph) :
    (afterBlanks comment gs).length ≤ gs.length := by
  fun_induction afterBlanks comment gs <;> simp_all <;> omega

/-- What a backslash and the character after it stand for in a string literal. Unknown escapes are
kept as they are written, and an escaped line feed joins two lines. -/
def unescape (c : Char) : List Char :=
  if c = 'n' then ['\n']
  else if c = 't' then ['\t']
  else if c = 'r' then ['\r']
  else if c = '0' then ['\x00']
  else if c = '\\' then ['\\']
  else if c = '\x27' then ['\x27']
  else if c = '"' then ['"']
  else if c = '\n' then []
  else ['\\', c]

/-- The rest of a string literal that began at `start`: its characters after `acc`, which holds the
last one first, and what follows the closing quote. -/
def stringBody (quote : Char) (triple : Bool) (start finish : Position) (acc : List Char) :
    List Glyph → Except Error (String × List Glyph)
  | [] => .error ⟨.unterminatedString, start⟩
  | g :: gs =>
    if g.char = quote then
      if triple then
        match gs with
        | a :: b :: rest =>
          if a.char = quote ∧ b.char = quote then .ok (String.ofList acc.reverse, rest)
          else stringBody quote triple start finish (quote :: acc) (a :: b :: rest)
        | rest => stringBody quote triple start finish (quote :: acc) rest
      else .ok (String.ofList acc.reverse, gs)
    else if g.char = '\n' && !triple then .error ⟨.unterminatedString, start⟩
    else if g.char = '\\' then
      match gs with
      | [] => .error ⟨.endInsideString, finish⟩
      | e :: rest => stringBody quote triple start finish ((unescape e.char).reverse ++ acc) rest
    else stringBody quote triple start finish (g.char :: acc) gs

theorem length_stringBody_le {quote : Char} {triple : Bool} {start finish : Position}
    {acc : List Char} {gs : List Glyph} {r : String × List Glyph}
    (h : stringBody quote triple start finish acc gs = .ok r) : r.2.length ≤ gs.length := by
  fun_induction stringBody quote triple start finish acc gs
  case case1 | case6 | case7 => cases h
  case case2 => cases h; simp only [List.length_cons]; omega
  case case5 => cases h; exact Nat.le_succ _
  case case3 ih | case4 ih | case9 ih => exact Nat.le_succ_of_le (ih h)
  case case8 ih => exact Nat.le_succ_of_le (Nat.le_succ_of_le (ih h))

/-- The string literal after its first quote, which stands at `start`. -/
def stringLiteral (quote : Char) (start finish : Position) (gs : List Glyph) :
    Except Error (String × List Glyph) :=
  match gs with
  | a :: b :: rest =>
    if a.char = quote ∧ b.char = quote then stringBody quote true start finish [] rest
    else stringBody quote false start finish [] gs
  | _ => stringBody quote false start finish [] gs

theorem length_stringLiteral_le {quote : Char} {start finish : Position} {gs : List Glyph}
    {r : String × List Glyph} (h : stringLiteral quote start finish gs = .ok r) :
    r.2.length ≤ gs.length := by
  unfold stringLiteral at h
  split at h
  · split at h
    · have := length_stringBody_le h
      simp; omega
    · exact length_stringBody_le h
  · exact length_stringBody_le h

/-- A run of digits, in which underscores are skipped. -/
def digits : List Glyph → List Char × List Glyph
  | [] => ([], [])
  | g :: gs =>
    if g.char.isDigit then
      let (ds, rest) := digits gs
      (g.char :: ds, rest)
    else if g.char = '_' then digits gs
    else ([], g :: gs)

theorem length_digits_le (gs : List Glyph) : (digits gs).2.length ≤ gs.length := by
  fun_induction digits gs <;> simp_all <;> omega

/-- The fraction of a number, if a point and a digit are next: the point and the digits. -/
def fraction (gs : List Glyph) : List Char × List Glyph :=
  match gs with
  | p :: d :: rest =>
    if p.char = '.' && d.char.isDigit then
      let (ds, rest) := digits (d :: rest)
      ('.' :: ds, rest)
    else ([], gs)
  | _ => ([], gs)

theorem length_fraction_le (gs : List Glyph) : (fraction gs).2.length ≤ gs.length := by
  unfold fraction
  split
  · rename_i p d rest
    split
    · have := length_digits_le (d :: rest)
      simp at *; omega
    · simp
  · simp

/-- The exponent of a number, if its mark, an optional sign and a digit are next; the mark is kept
in lower case. -/
def power (gs : List Glyph) : List Char × List Glyph :=
  match gs with
  | e :: s :: rest =>
    if e.char = 'e' || e.char = 'E' then
      if s.char.isDigit then
        let (ds, rest) := digits (s :: rest)
        ('e' :: ds, rest)
      else
        match rest with
        | d :: more =>
          if (s.char = '+' || s.char = '-') && d.char.isDigit then
            let (ds, rest) := digits (d :: more)
            ('e' :: s.char :: ds, rest)
          else ([], gs)
        | [] => ([], gs)
    else ([], gs)
  | _ => ([], gs)

theorem length_power_le (gs : List Glyph) : (power gs).2.length ≤ gs.length := by
  unfold power
  split
  · rename_i e s rest
    split
    · split
      · have := length_digits_le (s :: rest)
        simp at *; omega
      · split
        · rename_i d more
          split
          · have := length_digits_le (d :: more)
            simp at *; omega
          · simp
        · simp
    · simp
  · simp

/-- The number literal of which the first digit stands at `start`. -/
def numberLiteral (first : Char) (start : Position) (gs : List Glyph) :
    Except Error (Kind × List Glyph) :=
  let (ds, gs) := digits gs
  let (places, gs) := fraction gs
  let (exponent, gs) := power gs
  let whole := first :: ds
  if places.isEmpty && exponent.isEmpty then
    match Decimal.readInt? whole with
    | some n => .ok (.int n, gs)
    | none => .error ⟨.integerOutOfRange (String.ofList whole), start⟩
  else .ok (.float ((Decimal.readFloat? (whole ++ places ++ exponent)).getD 0.0), gs)

theorem length_numberLiteral_le {first : Char} {start : Position} {gs : List Glyph}
    {r : Kind × List Glyph} (h : numberLiteral first start gs = .ok r) :
    r.2.length ≤ gs.length := by
  have h₁ := length_digits_le gs
  have h₂ := length_fraction_le (digits gs).2
  have h₃ := length_power_le (fraction (digits gs).2).2
  unfold numberLiteral at h
  simp only at h
  split at h
  · split at h
    · cases h; simp only; omega
    · cases h
  · cases h; simp only; omega

def isNameStart (c : Char) : Bool := Text.isAlphabetic c || c == '_'

def isNamePart (c : Char) : Bool := Text.isAlphabetic c || Text.isNumeric c || c == '_'

def wordKind (word : String) : Kind :=
  match Keyword.ofText? word with
  | some k => .mark (.keyword k)
  | none => .name word

def word (first : Char) (gs : List Glyph) : Kind × List Glyph :=
  let part := gs.takeWhile fun g => isNamePart g.char
  (wordKind (String.ofList (first :: part.map Glyph.char)), gs.dropWhile fun g => isNamePart g.char)

theorem length_word_le (first : Char) (gs : List Glyph) : (word first gs).2.length ≤ gs.length := by
  simpa [word] using (List.dropWhile_sublist _).length_le

/-- One of two symbols, the longer one if an equals sign is next. -/
def withAssign (plain assigned : Symbol) : List Glyph → Symbol × List Glyph
  | [] => (plain, [])
  | g :: gs => if g.char = '=' then (assigned, gs) else (plain, g :: gs)

theorem length_withAssign_le (plain assigned : Symbol) (gs : List Glyph) :
    (withAssign plain assigned gs).2.length ≤ gs.length := by
  fun_cases withAssign plain assigned gs <;> simp_all

/-- One of two pairs of symbols, the second if `c` is next. -/
def withDouble (c : Char) (plain assigned double doubleAssigned : Symbol) :
    List Glyph → Symbol × List Glyph
  | [] => (plain, [])
  | g :: gs =>
    if g.char = c then withAssign double doubleAssigned gs else withAssign plain assigned (g :: gs)

theorem length_withDouble_le (c : Char) (plain assigned double doubleAssigned : Symbol)
    (gs : List Glyph) :
    (withDouble c plain assigned double doubleAssigned gs).2.length ≤ gs.length := by
  fun_cases withDouble c plain assigned double doubleAssigned gs
  · simp
  · exact Nat.le_succ_of_le (length_withAssign_le ..)
  · exact length_withAssign_le ..

def symbol? (c : Char) (gs : List Glyph) : Option (Symbol × List Glyph) :=
  match c with
  | '+' => some (withAssign .plus .plusAssign gs)
  | '-' =>
    match gs with
    | g :: rest =>
      if g.char = '>' then some (.arrow, rest) else some (withAssign .minus .minusAssign gs)
    | [] => some (.minus, [])
  | '*' => some (withDouble '*' .star .starAssign .doubleStar .doubleStarAssign gs)
  | '/' => some (withDouble '/' .slash .slashAssign .doubleSlash .doubleSlashAssign gs)
  | '%' => some (withAssign .percent .percentAssign gs)
  | '=' => some (withAssign .assign .equal gs)
  | '<' => some (withAssign .less .lessEqual gs)
  | '>' => some (withAssign .greater .greaterEqual gs)
  | '!' =>
    match gs with
    | g :: rest => if g.char = '=' then some (.notEqual, rest) else none
    | [] => none
  | '(' => some (.openParen, gs)
  | '[' => some (.openBracket, gs)
  | ')' => some (.closeParen, gs)
  | ']' => some (.closeBracket, gs)
  | ',' => some (.comma, gs)
  | ':' => some (.colon, gs)
  | '.' => some (.dot, gs)
  | ';' => some (.semicolon, gs)
  | '@' => some (.atSign, gs)
  | _ => none

theorem length_symbol?_le {c : Char} {gs : List Glyph} {r : Symbol × List Glyph}
    (h : symbol? c gs = some r) : r.2.length ≤ gs.length := by
  have hw := fun p a => length_withAssign_le p a gs
  have hd := fun c p a d b => length_withDouble_le c p a d b gs
  unfold symbol? at h
  split at h <;> (try split at h) <;> (try split at h) <;> simp_all <;> subst h <;> simp_all

/-- The bracket depth after a symbol; a closing bracket needs an open one, of whatever shape. -/
def depthAfter? (depth : Nat) : Symbol → Option Nat
  | .openParen | .openBracket => some (depth + 1)
  | .closeParen | .closeBracket => if depth = 0 then none else some (depth - 1)
  | _ => some depth

/-- A token read at a glyph: its kind, the bracket depth after it and what follows. -/
structure Read where
  kind : Kind
  depth : Nat
  rest : List Glyph

def read (finish : Position) (depth : Nat) (g : Glyph) (gs : List Glyph) : Except Error Read :=
  if g.char = '"' ∨ g.char = '\x27' then
    (stringLiteral g.char g.pos finish gs).map fun (s, rest) => ⟨.str s, depth, rest⟩
  else if g.char.isDigit then
    (numberLiteral g.char g.pos gs).map fun (k, rest) => ⟨k, depth, rest⟩
  else if isNameStart g.char then
    let (k, rest) := word g.char gs
    .ok ⟨k, depth, rest⟩
  else
    match symbol? g.char gs with
    | none => .error ⟨.unexpected g.char, g.pos⟩
    | some (s, rest) =>
      match depthAfter? depth s with
      | none => .error ⟨.unmatched g.char, g.pos⟩
      | some depth => .ok ⟨.mark (.symbol s), depth, rest⟩

theorem length_read_le {finish : Position} {depth : Nat} {g : Glyph} {gs : List Glyph} {r : Read}
    (h : read finish depth g gs = .ok r) : r.rest.length ≤ gs.length := by
  unfold read at h
  split at h
  · cases hs : stringLiteral g.char g.pos finish gs with
    | error e => simp [hs, Except.map] at h
    | ok p =>
      simp only [hs, Except.map, Except.ok.injEq] at h
      subst h
      exact length_stringLiteral_le hs
  · split at h
    · cases hn : numberLiteral g.char g.pos gs with
      | error e => simp [hn, Except.map] at h
      | ok p =>
        simp only [hn, Except.map, Except.ok.injEq] at h
        subst h
        exact length_numberLiteral_le hn
    · split at h
      · cases h
        exact length_word_le g.char gs
      · split at h
        · cases h
        · rename_i s rest hs
          split at h
          · cases h
          · cases h
            exact length_symbol?_le hs

/-- The open blocks that end where a line begins at `column`, and those that stay open; the columns
are listed innermost first. -/
def closedBy (column : Nat) : List Nat → List Nat × List Nat
  | [] => ([], [])
  | c :: cs =>
    if column < c then
      let (closed, kept) := closedBy column cs
      (c :: closed, kept)
    else ([], c :: cs)

/-- The layout tokens in front of a line at `column`, and the blocks that are then open. -/
def indentation (columns : List Nat) (column : Nat) (p : Position) :
    Except Error (List Token × List Nat) :=
  if columns.headD 0 < column then .ok ([⟨.mark .indent, p, p.line⟩], column :: columns)
  else
    let (closed, kept) := closedBy column columns
    if kept.headD 0 = column then .ok (closed.map fun _ => ⟨.mark .dedent, p, p.line⟩, kept)
    else .error ⟨.unalignedUnindent, p⟩

/-- The tokens at the end of the text: a newline if a logical line is `open`, a dedent for each open
block and the end mark. -/
def ending (finish : Position) (columns : List Nat) (depth : Nat) (isOpen : Bool) :
    Except Error (List Token) :=
  if 0 < depth then .error ⟨.endInsideBrackets, finish⟩
  else
    let token (m : Mark) : Token := ⟨.mark m, finish, finish.line⟩
    .ok ((if isOpen then [token .newline] else []) ++ columns.map (fun _ => token .dedent) ++
      [token .endOfFile])

mutual

def scanLine (finish : Position) (columns : List Nat) (gs : List Glyph) :
    Except Error (List Token) :=
  match _h : margin 0 gs with
  | (_, []) => ending finish columns 0 false
  | (column, g :: rest) =>
    if g.char = '\n' ∨ g.char = '\r' then scanLine finish columns rest
    else if g.char = '#' then scanLine finish columns (afterComment rest)
    else do
      let (tokens, columns) ← indentation columns column g.pos
      let others ← scanRest finish columns 0 (!tokens.isEmpty) (g :: rest)
      return tokens ++ others
termination_by (gs.length, 1)
decreasing_by
  all_goals
    have hm := length_margin_le 0 gs
    simp only [_h, List.length_cons] at hm
  · exact Prod.Lex.left _ _ (by omega)
  · have := length_afterComment_le rest
    exact Prod.Lex.left _ _ (by omega)
  · rcases Nat.lt_or_eq_of_le hm with hl | he
    · exact Prod.Lex.left _ _ (by simpa using hl)
    · simp only [List.length_cons, he]
      exact Prod.Lex.right _ (by omega)

/-- The tokens from within a line; `isOpen` says that the logical line has a token. -/
def scanRest (finish : Position) (columns : List Nat) (depth : Nat) (isOpen : Bool)
    (gs : List Glyph) : Except Error (List Token) :=
  match _h : afterBlanks false gs with
  | [] => ending finish columns depth isOpen
  | g :: rest =>
    if g.char = '\n' then
      if 0 < depth then scanRest finish columns depth isOpen rest
      else do
        let others ← scanLine finish columns rest
        return if isOpen then ⟨.mark .newline, g.pos, (g.pos.after '\n').line⟩ :: others else others
    else
      match _hr : read finish depth g rest with
      | .error e => .error e
      | .ok r => do
        let token := ⟨r.kind, g.pos, max (Glyph.here finish r.rest).line g.pos.line⟩
        let others ← scanRest finish columns r.depth true r.rest
        return token :: others
termination_by (gs.length, 0)
decreasing_by
  all_goals
    have hb := length_afterBlanks_le false gs
    simp only [_h, List.length_cons] at hb
  · exact Prod.Lex.left _ _ (by omega)
  · exact Prod.Lex.left _ _ (by omega)
  · have := length_read_le _hr
    exact Prod.Lex.left _ _ (by omega)

end

end Footprint.Token

namespace Footprint

/-- The tokens of a text, the end mark last. -/
def tokenize (source : String) : Except Token.Error (List Token) :=
  let cs := source.toList
  Token.scanLine (Position.start.afterAll cs) [] (Token.Glyph.ofChars .start cs)

end Footprint
