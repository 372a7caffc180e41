import Footprint.Text.Lines
import Footprint.Viewer.Entry

set_option autoImplicit false

/-!
The viewer's state: the runs with one of them selected, the pane that keys act on, and how far the
panes are scrolled. Keys may scroll past the end; drawing brings the offsets back.
-/

namespace Footprint

inductive Pane where
  | runs | source | output
  deriving DecidableEq

namespace Pane

def next : Pane → Pane
  | runs => source
  | source => output
  | output => runs

def previous : Pane → Pane
  | runs => output
  | source => runs
  | output => source

end Pane

inductive Key where
  | escape | tab | backTab | left | right | up | down
  | other
  | character (c : Char)
  deriving DecidableEq

structure Viewer where
  runs : Array RunEntry
  source : String
  selected : Nat
  focus : Pane
  sourceScroll : Nat
  outputScroll : Nat
  hasQuit : Bool

namespace Viewer

def start (runs : List RunEntry) (source : String) : Viewer :=
  ⟨runs.toArray, source, 0, .runs, 0, 0, false⟩

def current? (v : Viewer) : Option RunEntry := v.runs[v.selected]?

def selectPrevious (v : Viewer) : Viewer :=
  if 0 < v.selected then { v with selected := v.selected - 1, outputScroll := 0 } else v

def selectNext (v : Viewer) : Viewer :=
  if v.selected + 1 < v.runs.size then { v with selected := v.selected + 1, outputScroll := 0 }
  else v

def moveUp (v : Viewer) : Viewer :=
  match v.focus with
  | .runs => v.selectPrevious
  | .source => { v with sourceScroll := v.sourceScroll - 1 }
  | .output => { v with outputScroll := v.outputScroll - 1 }

def moveDown (v : Viewer) : Viewer :=
  match v.focus with
  | .runs => v.selectNext
  | .source => { v with sourceScroll := v.sourceScroll + 1 }
  | .output => { v with outputScroll := v.outputScroll + 1 }

def press (v : Viewer) : Key → Viewer
  | .escape => { v with hasQuit := true }
  | .character c => if c = 'q' || c = 'Q' then { v with hasQuit := true } else v
  | .tab => { v with focus := v.focus.next }
  | .backTab => { v with focus := v.focus.previous }
  | .left => v.selectPrevious
  | .right => v.selectNext
  | .up => v.moveUp
  | .down => v.moveDown
  | .other => v

def sourceLines (v : Viewer) : List String := Text.lines v.source

end Viewer

end Footprint
