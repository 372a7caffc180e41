import Footprint.Text.EmojiTables
import Footprint.Text.WidthTables

set_option autoImplicit false

/-!
How many columns of a screen a text takes (Unicode 16.0). Most characters take one, wide ones two,
and marks none; a sign that is made of several characters takes the columns of its last one. So the
text is read from its end, and what a character takes depends on what stands after it.
-/

namespace Footprint.Text

/-- What stands after a character, as far as the width of the character depends on it. -/
inductive Sequel where
  | plain
  | lineFeed
  | emoji
  | skinTone
  /-- A joiner with an emoji after it. -/
  | joiner
  /-- The end of a flag, so many tag letters before it, and a joined emoji after it. -/
  | tagLetters (count : Nat)
  /-- The end of a flag, so many tag digits before its letters, and a joined emoji after it. -/
  | tagDigits (count : Nat)
  /-- A Khmer letter that can be written below the one before it. -/
  | khmerLetter
  | kiratRaiE
  | kiratRaiAi
  deriving DecidableEq

/-- A sequel, and the selectors of emoji style and of text style before it. -/
structure SelectedSequel where
  sequel : Sequel
  asEmoji : Bool
  asText : Bool
  deriving DecidableEq

namespace SelectedSequel

def of (s : Sequel) : SelectedSequel := ⟨s, false, false⟩

def none : SelectedSequel := of .plain

/-- With a selector of emoji style before it, which hides most sequels. -/
def selectEmoji (f : SelectedSequel) : SelectedSequel :=
  match f.sequel with
  | .joiner | .khmerLetter => { f with asEmoji := true }
  | _ => ⟨.plain, true, false⟩

/-- With a selector of text style before it, which hides most sequels. -/
def selectText (f : SelectedSequel) : SelectedSequel :=
  match f.sequel with
  | .khmerLetter => { f with asText := true }
  | _ => ⟨.plain, false, true⟩

/-- What is left of it for a character that has no emoji style. -/
def withoutEmoji (f : SelectedSequel) : SelectedSequel :=
  match f.sequel with
  | .khmerLetter => { f with asEmoji := false }
  | _ => none

/-- What is left of it for a character that has no text style. -/
def withoutText (f : SelectedSequel) : SelectedSequel := { f with asText := false }

end SelectedSequel

/-- A letter of Khmer that can be written below the one before it. -/
def isKhmerLetter (n : Nat) : Bool :=
  0x1780 ≤ n && n ≤ 0x1782 || 0x1784 ≤ n && n ≤ 0x1787 || 0x1789 ≤ n && n ≤ 0x178c
    || 0x178e ≤ n && n ≤ 0x1793 || 0x1795 ≤ n && n ≤ 0x1798 || 0x179b ≤ n && n ≤ 0x179d
    || [0x17a0, 0x17a2, 0x17a7, 0x17ab, 0x17ac, 0x17af].contains n

/-- A character that may stand between a Khmer letter and the sign that puts it below. -/
def isTransparent (n : Nat) : Bool :=
  [0x34f, 0x17b4, 0x17b5, 0x180f, 0x200d].contains n || 0x180b ≤ n && n ≤ 0x180d
    || 0xfe00 ≤ n && n ≤ 0xfe0f || 0xe0100 ≤ n && n ≤ 0xe01ef

def isTagLetter (n : Nat) : Bool := 0xe0061 ≤ n && n ≤ 0xe007a

def isTagDigit (n : Nat) : Bool := 0xe0030 ≤ n && n ≤ 0xe0039

/-- The columns of a character whose sequel does not matter, and the sequel that it is. -/
def ownColumns (c : Char) : Int × SelectedSequel :=
  if isSkinTone c then (2, .of .skinTone)
  else if isEmoji c then (2, .of .emoji)
  else if isKhmerLetter c.toNat then (1, .of .khmerLetter)
  else if c.toNat = 0x16d67 then (1, .of .kiratRaiE)
  else if c.toNat = 0x16d68 then (1, .of .kiratRaiAi)
  else if c.toNat = 0x17d8 then (3, .none)
  else if widthlessRanges.any (·.covers c) then (0, .none)
  else if wideRanges.any (·.covers c) then (2, .none)
  else (1, .none)

/-- The columns of a character that makes one sign with its sequel, and the sequel that they are. -/
def joinedColumns (c : Char) : Sequel → Option (Int × Sequel)
  | .emoji => if c = '\u200d' then some (0, .joiner) else none
  | .skinTone =>
    if toneableRanges.any (·.covers c) then some (0, .emoji)
    else if c = '\u200d' then some (0, .joiner) else none
  | .joiner =>
    if isSkinTone c then some (0, .skinTone)
    else if c.toNat = 0xe007f then some (0, .tagLetters 0)
    else if isEmoji c then some (0, .emoji) else none
  | .tagLetters n =>
    if isTagLetter c.toNat && n < 6 then some (0, .tagLetters (n + 1))
    else if isTagDigit c.toNat && n ≤ 3 then some (0, .tagDigits 1)
    else if c.toNat = 0x1f3f4 && 3 ≤ n then some (0, .emoji) else none
  | .tagDigits n =>
    if isTagDigit c.toNat && n < 3 then some (0, .tagDigits (n + 1))
    else if c.toNat = 0x1f3f4 && n = 3 then some (0, .emoji) else none
  | .khmerLetter => if c.toNat = 0x17d2 then some (-1, .plain) else none
  | .kiratRaiE =>
    if c.toNat = 0x16d67 then some (0, .kiratRaiAi)
    else if c.toNat = 0x16d68 then some (1, .kiratRaiE)
    else if c.toNat = 0x16d63 || c.toNat = 0x16d69 then some (0, .plain) else none
  | .kiratRaiAi => if c.toNat = 0x16d63 then some (0, .plain) else none
  | .plain | .lineFeed => none

/-- The columns of a symbol without emoji style before its sequel, and the sequel that they are. -/
def symbolColumns (c : Char) (f : SelectedSequel) : Int × SelectedSequel :=
  if c = '\ufe0f' then (0, f.selectEmoji)
  else if c = '\ufe0e' then (0, f.selectText)
  else if f.asText && textableRanges.any (·.covers c) then (1, .none)
  else
    let f := f.withoutText
    if f.sequel = .khmerLetter && isTransparent c.toNat then (0, f)
    else
      match joinedColumns c f.sequel with
      | some (n, s) => (n, .of s)
      | none => ownColumns c

/-- The columns of a character before its sequel, and the sequel that they are. -/
def columnsBefore (c : Char) (f : SelectedSequel) : Int × SelectedSequel :=
  if f.asEmoji && styleableRanges.any (·.covers c) then
    (if f.sequel = .joiner then 0 else 2, .of .emoji)
  else
    let f := if f.asEmoji then f.withoutEmoji else f
    if c = '\n' then (0, .of .lineFeed)
    else if c = '\r' && f = .of .lineFeed then (0, .none)
    else if c.toNat ≤ 0xa0 then (1, .none)
    else symbolColumns c f

/-- The columns of a text and the sequel that it is, with one more character before it. -/
def columnsFrom : List Char → Int × SelectedSequel
  | [] => (0, .none)
  | c :: cs =>
    let (rest, f) := columnsFrom cs
    let (own, f) := columnsBefore c f
    (own + rest, f)

/-- The number of columns of a text. A letter that is written below another takes back the column
that it was counted for, so that the number is never negative. -/
def columns (cs : List Char) : Nat := (columnsFrom cs).1.toNat

end Footprint.Text
