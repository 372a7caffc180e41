import Footprint.Position

set_option autoImplicit false

/-!
A text as characters that know where they stand, the form in which it is scanned.
-/

namespace Footprint.Token

structure Glyph where
  char : Char
  pos : Position
  deriving DecidableEq

namespace Glyph

/-- The characters of a text of which the first stands at `p`. -/
def ofChars (p : Position) : List Char → List Glyph
  | [] => []
  | c :: cs => ⟨c, p⟩ :: ofChars (p.after c) cs

/-- Where the scan stands before the glyphs, `finish` being the end of the text. -/
def here (finish : Position) : List Glyph → Position
  | [] => finish
  | g :: _ => g.pos

theorem map_char_ofChars (p : Position) (cs : List Char) :
    (ofChars p cs).map Glyph.char = cs := by
  induction cs generalizing p with
  | nil => rfl
  | cons c cs ih => simp [ofChars, ih]

theorem length_ofChars (p : Position) (cs : List Char) : (ofChars p cs).length = cs.length := by
  simpa using congrArg List.length (map_char_ofChars p cs)

end Glyph

end Footprint.Token
