import Footprint.Batch.Error
import Footprint.Decimal.Reading
import Footprint.Syntax.Binding
import Footprint.Text.Blank
import Footprint.Text.Lines

set_option autoImplicit false

/-!
The inputs of a batch: a file is one by itself, a directory stands for its files with an extension,
in ascending order. The value of an input is the integer on its first line.
-/

namespace Footprint

/-- The entry is an input of its directory: a file with the extension, and not hidden. -/
def DirectoryEntry.isInput (e : DirectoryEntry) (extension : String) : Bool :=
  e.isFile && !e.name.startsWith "." &&
    Path.extension? e.name.toList == some extension.toList

/-- The integer on the first line of a text, blanks around it left out, or else that line. -/
def valueOf (text : String) : Except String Int64 :=
  let line := Text.trim ((Text.lines text).headD "").toList
  match Decimal.readInt? line with
  | some n => .ok n
  | none => .error (.ofList line)

namespace Files

variable {m : Type → Type} [Monad m]

def inputs (fs : Files m) (path extension : String) : m (Except BatchError (List String)) := do
  match ← fs.entries path with
  | .error e => return .error (.unreadable path e)
  | .ok none => return .ok [path]
  | .ok (some entries) =>
    let names := (entries.filter (·.isInput extension)).map (·.name)
    return .ok ((nameSet names).map (Path.join path))

def value (fs : Files m) (path : String) : m (Except BatchError Int64) := do
  match ← fs.text path with
  | .error e => return .error (.unreadable path e)
  | .ok text =>
    match valueOf text with
    | .ok n => return .ok n
    | .error line => return .error (.malformed path line)

end Files

end Footprint
