import Footprint.CommandLine.Execution
import Footprint.Viewer.Frame

set_option autoImplicit false

/-!
The command: files are those of the machine it runs on. To browse the results, each line of the
standard input is a key, and a frame is printed before each.
-/

namespace Footprint

/-- What went wrong with a file. The codes of the system come with either sign. -/
def FileError.ofSystem : IO.Error → FileError
  | .noFileOrDirectory _ _ _ | .noSuchThing _ _ _ => .notFound
  | .inappropriateType _ code _ => if code = 20 || code = -20 then .notDirectory else .isDirectory
  | .permissionDenied _ _ _ => .other "Permission denied (os error 13)"
  | e => .other (toString e)

def fileAnswer {α : Type} (action : IO α) : IO (Except FileError α) :=
  try return .ok (← action) catch e => return .error (.ofSystem e)

def directoryEntries (path : String) : IO (Option (List DirectoryEntry)) := do
  let place ← IO.FS.realPath path
  let found ← place.metadata
  if found.type != .dir then return none
  let entries ← place.readDir
  let entries ← entries.toList.mapM fun e => do
    let found ← e.path.metadata
    return (⟨e.fileName, found.type == .file⟩ : DirectoryEntry)
  return some entries

def machineFiles : Files IO where
  bytes path := fileAnswer (IO.FS.readBinFile path)
  entries path := fileAnswer (directoryEntries path)

def Key.ofName (name : String) : Key :=
  match name with
  | "Esc" => .escape
  | "Tab" => .tab
  | "BackTab" => .backTab
  | "Left" => .left
  | "Right" => .right
  | "Up" => .up
  | "Down" => .down
  | _ =>
    match name.toList with
    | [c] => .character c
    | _ => .other

/-- Prints frames and takes keys until the viewer quits or no line is left. -/
partial def browse (v : Viewer) : IO Unit := do
  let (v, frame) := v.draw 100 30
  frame.rows.forM fun row => IO.println (String.join (row.map Cell.text))
  let line ← (← IO.getStdin).getLine
  let v := v.press (.ofName line.trimAscii.toString)
  if line.isEmpty || v.hasQuit then return () else browse v

def writeTranscript (t : Transcript) : IO UInt32 := do
  IO.print t.output
  IO.eprint t.errors
  return UInt32.ofNat t.exit

/-- Measures a script, and lets the results be browsed if the command says so. -/
def measureAndBrowse (c : Command) : IO UInt32 := do
  match ← CommandLine.measure machineFiles ampleSteps c with
  | none => return 1
  | some (t, results) =>
    let exit ← writeTranscript t
    if let some (s, os) := results then
      if c.browse then browse (.start (os.map .ofOutcome) s.program.source)
    return exit

def runCommand (args : List String) : IO UInt32 := do
  match Request.ofArguments args with
  | .measure c => measureAndBrowse c
  | _ =>
    match ← CommandLine.execute machineFiles ampleSteps args with
    | some t => writeTranscript t
    | none => return 1

end Footprint

def main (args : List String) : IO UInt32 := Footprint.runCommand args
