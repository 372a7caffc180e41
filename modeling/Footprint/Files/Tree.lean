import Footprint.Files.Basic

set_option autoImplicit false

/-!
Trees of files in memory. Paths are relative to the root of the tree, and nothing is known above it.
-/

namespace Footprint

inductive FileTree where
  | file (bytes : ByteArray)
  | directory (entries : List (String × FileTree))

namespace FileTree

def empty : FileTree := directory []

/-- Changes the entry of a name, which may be new. -/
def alter (name : String) (f : Option FileTree → FileTree) :
    List (String × FileTree) → List (String × FileTree)
  | [] => [(name, f none)]
  | (n, t) :: rest => if n = name then (n, f (some t)) :: rest else (n, t) :: alter name f rest

/-- Puts something at a path, making the directories on the way; `f` decides what is put in place of
what is there. -/
def put (f : Option FileTree → FileTree) : List String → Option FileTree → FileTree
  | [], t => f t
  | name :: rest, some (directory entries) => directory (alter name (put f rest) entries)
  | name :: rest, _ => directory [(name, put f rest none)]

def namesOf (path : String) : List String :=
  (path.splitOn "/").filter fun name => name ≠ "" && name ≠ "."

def write (t : FileTree) (path : String) (bytes : ByteArray) : FileTree :=
  put (fun _ => file bytes) (namesOf path) (some t)

def makeDirectory (t : FileTree) (path : String) : FileTree :=
  put (·.getD empty) (namesOf path) (some t)

def follow (above : List FileTree) (here : FileTree) : List String → Except FileError FileTree
  | [] => .ok here
  | name :: rest =>
    match here with
    | file _ => .error .notDirectory
    | directory entries =>
      if name = "" || name = "." then follow above here rest
      else if name = ".." then
        match above with
        | outer :: above => follow above outer rest
        | [] => .error .notFound
      else
        match entries.lookup name with
        | some t => follow (here :: above) t rest
        | none => .error .notFound

def find (t : FileTree) (path : String) : Except FileError FileTree :=
  if path.isEmpty || path.startsWith "/" then .error .notFound else follow [] t (path.splitOn "/")

def bytes (t : FileTree) (path : String) : Except FileError ByteArray :=
  match t.find path with
  | .ok (file bytes) => .ok bytes
  | .ok (directory _) => .error .isDirectory
  | .error e => .error e

def entries (t : FileTree) (path : String) : Except FileError (Option (List DirectoryEntry)) :=
  match t.find path with
  | .ok (file _) => .ok none
  | .ok (directory entries) =>
    .ok <| some <| entries.map fun
      | (name, file _) => ⟨name, true⟩
      | (name, directory _) => ⟨name, false⟩
  | .error e => .error e

def files (t : FileTree) : Files Id := ⟨t.bytes, t.entries⟩

end FileTree

end Footprint
