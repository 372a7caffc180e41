import Footprint.Program
import Footprint.Text.Blank
import Footprint.Trace.Coverage

set_option autoImplicit false

/-!
The annotated listing of a program: the source of each function that was entered, with a mark at the
lines that were executed. Names that do not stand for one definition are left out.
-/

namespace Footprint

/-- A line of the listing: its mark, its number in at least two places, and the text of the source
line without the blanks at its end. -/
def listedLine (covered : Bool) (number : Nat) (text : String) : String :=
  let mark := if covered then "| " else "  "
  let digits := toString number
  let pad := if digits.length < 2 then " " else ""
  mark ++ pad ++ digits ++ "  " ++ String.ofList (Text.trimEnd text.toList) ++ "\n"

/-- The lines of the definition at a span, those of `c` being marked. -/
def Coverage.listDefinition (c : Coverage) (lines : Array String) (name : String) (s : Span) :
    List String :=
  s.lines.map fun n => listedLine (⟨name, n⟩ ∈ c) n (lines[n - 1]?.getD "")

/-- The listing of a program of which the lines of `c` were executed, by ascending names. -/
def Program.listing (p : Program) (c : Coverage) : String :=
  let registry := p.registry
  let lines := (Text.lines p.source).toArray
  let listed := c.names.map fun name =>
    match registry.resolve? name with
    | some s => String.join (c.listDefinition lines name s)
    | none => ""
  String.join listed

end Footprint
