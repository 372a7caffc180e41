import Footprint.Text.ClusterTables
import Footprint.Text.EmojiTables
import Footprint.Text.GraphemeExtend

set_option autoImplicit false

/-!
The classes of characters that decide where a text falls into clusters (Unicode 17.0): the property
Grapheme_Cluster_Break, and of its classes those apart that build conjuncts and joined emoji.
-/

namespace Footprint.Text

inductive ClusterBreak where
  | carriageReturn
  | lineFeed
  | control
  | extend
  /-- Extends as well, and links the consonants around it. -/
  | linker
  /-- Extends as well, but keeps the consonants around it apart. -/
  | nonJoiner
  /-- Extends as well, and joins the pictographs around it. -/
  | joiner
  | spacingMark
  | prepend
  | consonant
  | pictograph
  /-- One half of a flag. -/
  | regional
  | leadingJamo
  | vowelJamo
  | trailingJamo
  /-- A Hangul syllable that ends in a vowel. -/
  | openSyllable
  | closedSyllable
  | other
  deriving DecidableEq

namespace ClusterBreak

def isControl : ClusterBreak → Bool
  | carriageReturn | lineFeed | control => true
  | _ => false

/-- Joins whatever stands before it, controls apart. -/
def joinsBackward : ClusterBreak → Bool
  | extend | linker | nonJoiner | joiner | spacingMark => true
  | _ => false

/-- The parts of a Hangul syllable stay together. -/
def joinsSyllable : ClusterBreak → ClusterBreak → Bool
  | leadingJamo, leadingJamo | leadingJamo, vowelJamo => true
  | leadingJamo, openSyllable | leadingJamo, closedSyllable => true
  | openSyllable, vowelJamo | openSyllable, trailingJamo => true
  | vowelJamo, vowelJamo | vowelJamo, trailingJamo => true
  | closedSyllable, trailingJamo | trailingJamo, trailingJamo => true
  | _, _ => false

/-- The class of a code point of Hangul. -/
def ofHangul? (n : Nat) : Option ClusterBreak :=
  if 0x1100 ≤ n && n ≤ 0x115f || 0xa960 ≤ n && n ≤ 0xa97c then some leadingJamo
  else if 0x1160 ≤ n && n ≤ 0x11a7 || 0xd7b0 ≤ n && n ≤ 0xd7c6 then some vowelJamo
  else if 0x11a8 ≤ n && n ≤ 0x11ff || 0xd7cb ≤ n && n ≤ 0xd7fb then some trailingJamo
  else if 0xac00 ≤ n && n ≤ 0xd7a3 then
    some (if (n - 0xac00) % 28 = 0 then openSyllable else closedSyllable)
  else none

/-- A vowel sign of Kirat Rai: it joins signs as the vowels of Hangul do. -/
def isKiratRaiVowel (n : Nat) : Bool := n = 0x16d63 || 0x16d67 ≤ n && n ≤ 0x16d6a

/-- The class of a character that is not ASCII. -/
def ofSymbol (c : Char) : ClusterBreak :=
  if c = '\u200d' then joiner
  else if c = '\u200c' then nonJoiner
  else if conjunctLinkerRanges.any (·.covers c) then linker
  else if isGraphemeExtend c || isSkinTone c then extend
  else if controlRanges.any (·.covers c) then control
  else if spacingMarkRanges.any (·.covers c) then spacingMark
  else if prependRanges.any (·.covers c) then prepend
  else if conjunctConsonantRanges.any (·.covers c) then consonant
  else if pictographRanges.any (·.covers c) then pictograph
  else if 0x1f1e6 ≤ c.toNat && c.toNat ≤ 0x1f1ff then regional
  else if isKiratRaiVowel c.toNat then vowelJamo
  else (ofHangul? c.toNat).getD other

/-- The class of a character; ASCII is decided without the tables. -/
def of (c : Char) : ClusterBreak :=
  if c = '\r' then carriageReturn
  else if c = '\n' then lineFeed
  else if c.toNat < 0x20 then control
  else if c.toNat < 0x7f then other
  else ofSymbol c

end ClusterBreak

end Footprint.Text
