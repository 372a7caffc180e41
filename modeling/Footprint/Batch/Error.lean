import Footprint.Files.Basic
import Footprint.Machine.Failure
import Footprint.Parser.Error
import Footprint.Text.Escaped

set_option autoImplicit false

/-!
What can go wrong when a script is measured on inputs: with its files, with its text, with a value,
or in a run.
-/

namespace Footprint

inductive BatchError where
  | unreadable (path : String) (e : FileError)
  | unparsable (path : String) (e : Parser.Error)
  /-- The first line of an input is no integer. -/
  | malformed (path line : String)
  | failed (path : String) (f : Failure)

def BatchError.message : BatchError → String
  | unreadable path e => s!"failed to read {path}: {e.message}"
  | unparsable path e => s!"failed to parse {path}: {e.message}"
  | malformed path line =>
    s!"{path}: expected an integer on the first line, found " ++ Text.escaped line
  | failed path f => s!"{path}: {f.message}"

end Footprint
