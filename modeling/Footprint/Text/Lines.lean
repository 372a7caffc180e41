set_option autoImplicit false

/-!
The lines of a text. A line ends with a line feed, or with a carriage return and a line feed; only
the last line may lack its end, and it is no line if there is nothing on it.
-/

namespace Footprint.Text

/-- A line without the carriage return at its end. -/
def chomp (line : List Char) : List Char :=
  if line.getLast? = some '\r' then line.dropLast else line

/-- The lines of a text of which `line` has been read backwards from its last line. -/
def linesFrom (line : List Char) : List Char → List (List Char)
  | [] => if line.isEmpty then [] else [line.reverse]
  | c :: cs => if c = '\n' then chomp line.reverse :: linesFrom [] cs else linesFrom (c :: line) cs

def lines (text : String) : List String := (linesFrom [] text.toList).map String.ofList

end Footprint.Text
