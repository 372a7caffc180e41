import Footprint.Screen.Grid
import Footprint.Viewer.Basic
import Footprint.Viewer.Highlight

set_option autoImplicit false

/-!
The frames of the viewer: on the left the runs above the output of the selected run, on the right
the script with the lines marked that this run executed, at the bottom a status line. Before a frame
is drawn the scroll offsets are brought back to where the last line is still shown.
-/

namespace Footprint

/-- The number in decimal, blanks before it up to a width. -/
def padded (width : Nat) (digits : String) : String :=
  String.ofList (List.replicate (width - digits.length) ' ') ++ digits

structure ViewerLayout where
  runs : Rect
  output : Rect
  source : Rect
  status : Rect

def ViewerLayout.ofSize (width height : Nat) : ViewerLayout :=
  let (panes, status) := Rect.splitLastRow ⟨0, 0, width, height⟩
  let (left, source) := panes.splitColumns 35
  let (runs, output) := left.splitRows 50
  ⟨runs, output, source, status⟩

def Rect.visibleLines (r : Rect) : Nat := max (r.height - 2) 1

/-- The offset nearest to `scroll` at which the window shows as many of the lines as it can. -/
def clampScroll (scroll lines window : Nat) : Nat := min scroll (lines - window)

namespace Viewer

/-- Brings the scroll offsets back to where the last line is still shown. Of a run without output
the offset stays. -/
def settle (v : Viewer) (l : ViewerLayout) : Viewer :=
  let lines := (v.current?.map (·.output.length)).getD 0
  { v with
    sourceScroll := clampScroll v.sourceScroll v.sourceLines.length l.source.visibleLines
    outputScroll :=
      if lines = 0 then v.outputScroll
      else clampScroll v.outputScroll lines l.output.visibleLines }

def borderStyle (v : Viewer) (p : Pane) : Style :=
  if v.focus = p then (Style.ink Palette.focusedBorder).inBold else .ink Palette.border

/-! ### Runs -/

/-- The line of a run: its coverage, or that it failed, and its input. -/
def runLine (r : RunEntry) : List StyledText :=
  let badge : StyledText :=
    match r.percentage with
    | some p => ⟨padded 7 (Decimal.fixed 2 p) ++ "% ", .ink Palette.covered⟩
    | none => ⟨"  FAILED ", (Style.ink Palette.failed).inBold⟩
  [badge, ⟨r.label, .ink Palette.text⟩]

/-- The first of the runs that are shown in so many rows: the selected run is among them. -/
def firstRun (v : Viewer) (rows : Nat) : Nat := v.selected + 1 - rows

def drawRun (g : Grid) (row : Rect) (r : RunEntry) (isSelected : Bool) : Grid :=
  let g := g.write (row.indent 2) (runLine r)
  let g := g.write row [⟨if isSelected then "> " else "  ", .plain⟩]
  if isSelected then g.restyle row (Style.paper Palette.panel).inBold else g

def drawRuns (v : Viewer) (r : Rect) (g : Grid) : Grid :=
  let g := g.box r s!" Runs ({v.runs.size}) " (v.borderStyle .runs)
  let inner := r.inside
  let first := v.firstRun inner.height
  let shown := (v.runs.toList.drop first).take inner.height
  shown.zipIdx.foldl (fun g (run, i) => drawRun g (inner.row i) run (first + i = v.selected)) g

/-! ### Output -/

/-- The rows of an output text, which has at least one. -/
def outputRows (text : String) : List String := if text.isEmpty then [""] else Text.lines text

/-- The texts that fit into so many rows, each as its rows. -/
def fittingRows (rows : Nat) : List (List String) → List (List String)
  | [] => []
  | t :: ts => if rows < t.length then [] else t :: fittingRows (rows - t.length) ts

def drawOutput (v : Viewer) (r : Rect) (g : Grid) : Grid :=
  let output := (v.current?.map (·.output)).getD []
  let title := " Program Output "
  if output.isEmpty then
    let g := g.restyle r (.ink Palette.muted)
    let g := g.box r title (v.borderStyle .output)
    g.writeVisible r.inside [⟨"(no output)", .plain⟩]
  else
    let g := g.box r title (v.borderStyle .output)
    let inner := r.inside.indent 1
    let shown := ((output.drop v.outputScroll).take r.visibleLines).map outputRows
    let rows := (fittingRows inner.height shown).flatten
    let g := g.restyle ⟨inner.x, inner.y, inner.width, rows.length⟩ (.ink Palette.text)
    g.writeLines inner (rows.map fun row => [⟨row, .plain⟩])

/-! ### Source -/

/-- A line of the script: its mark, its number, and the highlighted text. -/
def sourceLine (covered : Bool) (number : Nat) (text : String) : List StyledText :=
  let mark := if covered then "| " else "  "
  let style := if covered then (Style.ink Palette.covered).inBold else .ink Palette.muted
  let texts := Highlight.line text
  let texts := if covered then texts.map fun t => { t with style := t.style.on Palette.coveredLine }
    else texts
  ⟨mark ++ padded 4 (toString number) ++ " ", style⟩ :: texts

def sourceWindow (v : Viewer) (window : Nat) : List (Nat × String) :=
  ((v.sourceLines.zipIdx 1).drop v.sourceScroll).take window |>.map fun (text, n) => (n, text)

def isCovered (v : Viewer) (number : Nat) : Bool := v.current?.any (·.covered.contains number)

def drawSource (v : Viewer) (r : Rect) (g : Grid) : Grid :=
  let g := g.box r " Source Code " (v.borderStyle .source)
  let lines := (v.sourceWindow r.visibleLines).map fun (n, text) =>
    sourceLine (v.isCovered n) n text
  g.writeVisibleLines r.inside lines

/-! ### Status line -/

def statusText (v : Viewer) : List StyledText :=
  let failed := v.current?.any (·.percentage.isNone)
  let summary := (v.current?.map (·.summary)).getD "No inputs were run"
  let position :=
    if v.runs.isEmpty then " No runs " else s!" Run {v.selected + 1}/{v.runs.size} "
  let badge := if failed then Palette.failed else Palette.accent
  let ink := if failed then Palette.failed else Palette.text
  [⟨position, ((Style.ink .black).on badge).inBold⟩,
    ⟨" | ", (Style.ink Palette.muted).on Palette.panel⟩,
    ⟨" " ++ summary ++ " ", (Style.ink ink).on Palette.panel⟩]

def keysText : List StyledText :=
  let key (text : String) : StyledText := ⟨text, (Style.ink .black).on Palette.muted⟩
  let use (text : String) : StyledText := ⟨text, (Style.ink Palette.text).on Palette.panel⟩
  let bar : StyledText := ⟨"│", (Style.ink Palette.muted).on Palette.panel⟩
  [key " ←/→ ", use " run ", bar, use " ", key " ↑/↓ ", use " scroll ", bar, use " ",
    key " ⇥ ", use " focus ", bar, use " ", key "q", use " quit "]

def drawStatus (v : Viewer) (r : Rect) (g : Grid) : Grid :=
  let g := g.restyle r (.paper Palette.panel)
  let (left, right) := r.splitColumns 60
  (g.writeVisible left v.statusText).writeVisibleRight right keysText

/-- Draws a frame, as a screen shows it that was blank before. -/
def draw (v : Viewer) (width height : Nat) : Viewer × Grid :=
  let l := ViewerLayout.ofSize width height
  let v := v.settle l
  let g := Grid.blank width height
  let g := v.drawRuns l.runs g
  let g := v.drawOutput l.output g
  let g := v.drawSource l.source g
  (v, (v.drawStatus l.status g).shown)

end Viewer

end Footprint
