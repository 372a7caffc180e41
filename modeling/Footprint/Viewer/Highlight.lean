import Footprint.Text.Alphabetic
import Footprint.Text.Numeric
import Footprint.Viewer.Palette

set_option autoImplicit false

/-!
Highlighting of one line of a script: the line is cut into styled texts, which together are the line
again. Each line stands for itself, so a string that goes over several lines is not seen as one.
-/

namespace Footprint.Highlight

def keywords : List String := [
  "def", "class", "return", "if", "elif", "else", "while", "for", "in", "not", "and", "or", "is",
  "break", "continue", "pass", "try", "except", "finally", "raise", "with", "as", "import", "from",
  "global", "nonlocal", "del", "assert", "lambda", "async"]

def wordStyle (word : String) (isCalled : Bool) : Style :=
  if keywords.contains word then (Style.ink Palette.keyword).inBold
  else if ["None", "True", "False"].contains word then .ink Palette.literal
  else if word.toList.head?.any Char.isDigit then .ink Palette.literal
  else if isCalled then .ink Palette.call
  else .ink Palette.text

/-- The style of a character that is no part of a word. -/
def delimiterStyle (c : Char) : Style :=
  .ink (if "()[]:".toList.contains c then Palette.accent else Palette.text)

def isWordCharacter (c : Char) : Bool := Text.isAlphabetic c || Text.isNumeric c || c = '_'

/-- A text of some characters, unless there are none. -/
def piece (cs : List Char) (style : Style) : List StyledText :=
  if cs.isEmpty then [] else [⟨.ofList cs, style⟩]

/-- Cuts off a string after its opening quote: to its closing quote, or to the end of the line. The
character after a backslash does not close it. -/
def cutString (quote : Char) : List Char → List Char × List Char
  | [] => ([], [])
  | c :: cs =>
    if c = quote then ([c], cs)
    else if c = '\\' then
      match cs with
      | [] => ([c], [])
      | d :: ds =>
        let (inside, rest) := cutString quote ds
        (c :: d :: inside, rest)
    else
      let (inside, rest) := cutString quote cs
      (c :: inside, rest)

theorem cutString_append (quote : Char) (cs : List Char) :
    (cutString quote cs).1 ++ (cutString quote cs).2 = cs := by
  fun_induction cutString quote cs <;> simp_all

theorem length_cutString_le (quote : Char) (cs : List Char) :
    (cutString quote cs).2.length ≤ cs.length := by
  conv => rhs; rw [← cutString_append quote cs]
  simp

/-- The styled texts of a line of which `word`, read backwards, is a word that has begun. -/
def highlightFrom (word : List Char) : List Char → List StyledText
  | [] => piece word.reverse (wordStyle (.ofList word.reverse) false)
  | c :: cs =>
    if c = '#' then piece word.reverse .plain ++ [⟨.ofList (c :: cs), .ink Palette.muted⟩]
    else if c = '"' || c = '\'' then
      let inside := (cutString c cs).1
      piece word.reverse .plain ++ ⟨.ofList (c :: inside), .ink Palette.literal⟩ ::
        highlightFrom [] (cutString c cs).2
    else if isWordCharacter c then highlightFrom (c :: word) cs
    else
      piece word.reverse (wordStyle (.ofList word.reverse) (c = '(')) ++
        ⟨c.toString, delimiterStyle c⟩ :: highlightFrom [] cs
termination_by cs => cs.length
decreasing_by
  · have := length_cutString_le c cs
    simp
    omega
  · simp
  · simp

def line (text : String) : List StyledText := highlightFrom [] text.toList

end Footprint.Highlight
