set_option autoImplicit false

/-!
What a program asks about files, and how asking can fail. Where the answers come from is left open:
from a tree in memory or from the machine that the program runs on.
-/

namespace Footprint

inductive FileError where
  | notFound
  | notDirectory
  | isDirectory
  /-- The bytes of the file are no UTF-8 text. -/
  | notText
  | other (message : String)
  deriving DecidableEq

def FileError.message : FileError → String
  | notFound => "No such file or directory (os error 2)"
  | notDirectory => "Not a directory (os error 20)"
  | isDirectory => "Is a directory (os error 21)"
  | notText => "stream did not contain valid UTF-8"
  | other message => message

structure DirectoryEntry where
  name : String
  isFile : Bool

/-- Answers about files, given in `m`. -/
structure Files (m : Type → Type) where
  /-- The bytes of the file at a path. -/
  bytes : String → m (Except FileError ByteArray)
  /-- The entries of the directory at a path, or nothing if what is there is no directory. -/
  entries : String → m (Except FileError (Option (List DirectoryEntry)))

def Files.text {m : Type → Type} [Monad m] (fs : Files m) (path : String) :
    m (Except FileError String) := do
  match ← fs.bytes path with
  | .error e => return .error e
  | .ok bytes =>
    match String.fromUTF8? bytes with
    | some text => return .ok text
    | none => return .error .notText

namespace Path

def join (directory name : String) : String :=
  if directory.endsWith "/" then directory ++ name else directory ++ "/" ++ name

/-- What follows the last point of a name, unless that is its first character. -/
def extension? (name : List Char) : Option (List Char) :=
  let after := name.reverse.takeWhile (· ≠ '.')
  if name.length ≤ after.length + 1 then none else some after.reverse

end Path

end Footprint
