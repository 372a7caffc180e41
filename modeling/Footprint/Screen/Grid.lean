import Footprint.Screen.Style

set_option autoImplicit false

/-!
The grid of cells that a screen shows, and what is drawn on it: styles, boxes and lines of text.
Drawing outside of the grid does nothing, and of a text that does not fit the end is cut off.
-/

namespace Footprint

structure Cell where
  text : String
  front : Color
  back : Color
  bold : Bool
  deriving DecidableEq

namespace Cell

def blank : Cell := ⟨" ", .preset, .preset, false⟩

def restyle (s : Style) (c : Cell) : Cell :=
  ⟨c.text, s.front.getD c.front, s.back.getD c.back, c.bold || s.bold⟩

end Cell

structure Rect where
  x : Nat
  y : Nat
  width : Nat
  height : Nat
  deriving DecidableEq

namespace Rect

def isEmpty (r : Rect) : Bool := r.width = 0 || r.height = 0

/-- The area inside of a box around the rectangle. -/
def inside (r : Rect) : Rect := ⟨r.x + 1, r.y + 1, r.width - 2, r.height - 2⟩

/-- The rectangle without so many columns at its left. -/
def indent (r : Rect) (columns : Nat) : Rect := ⟨r.x + columns, r.y, r.width - columns, r.height⟩

def row (r : Rect) (i : Nat) : Rect := ⟨r.x, r.y + i, r.width, 1⟩

/-- The share of `size` that so many hundredths are, to the nearest number; a half goes up. -/
def share (hundredths size : Nat) : Nat := (hundredths * size + 50) / 100

/-- The left and the right part of the rectangle. -/
def splitColumns (r : Rect) (hundredths : Nat) : Rect × Rect :=
  let left := share hundredths r.width
  (⟨r.x, r.y, left, r.height⟩, ⟨r.x + left, r.y, r.width - left, r.height⟩)

def splitRows (r : Rect) (hundredths : Nat) : Rect × Rect :=
  let upper := share hundredths r.height
  (⟨r.x, r.y, r.width, upper⟩, ⟨r.x, r.y + upper, r.width, r.height - upper⟩)

def splitLastRow (r : Rect) : Rect × Rect :=
  let upper := r.height - 1
  (⟨r.x, r.y, r.width, upper⟩, ⟨r.x, r.y + upper, r.width, r.height - upper⟩)

end Rect

structure Grid where
  width : Nat
  height : Nat
  /-- The cells row by row. -/
  cells : Array Cell

namespace Grid

def blank (width height : Nat) : Grid := ⟨width, height, Array.replicate (width * height) .blank⟩

def area (g : Grid) : Rect := ⟨0, 0, g.width, g.height⟩

def modify (g : Grid) (x y : Nat) (f : Cell → Cell) : Grid :=
  if x < g.width then { g with cells := g.cells.modify (y * g.width + x) f } else g

def row (g : Grid) (y : Nat) : List Cell :=
  (g.cells.extract (y * g.width) ((y + 1) * g.width)).toList

def rows (g : Grid) : List (List Cell) := (List.range g.height).map g.row

def put (g : Grid) (x y : Nat) (text : String) (s : Style) : Grid :=
  g.modify x y fun c => { c with text }.restyle s

def fill (g : Grid) (r : Rect) (text : String) (s : Style) : Grid :=
  (List.range r.height).foldl
    (fun g j => (List.range r.width).foldl (fun g i => g.put (r.x + i) (r.y + j) text s) g) g

def restyle (g : Grid) (r : Rect) (s : Style) : Grid :=
  (List.range r.height).foldl
    (fun g j =>
      (List.range r.width).foldl (fun g i => g.modify (r.x + i) (r.y + j) (·.restyle s)) g) g

/-- Adds a cluster to what a cell holds. -/
def append (g : Grid) (x y : Nat) (c : StyledCluster) : Grid :=
  g.modify x y fun cell => { cell with text := cell.text ++ c.text }.restyle c.style

def erase (g : Grid) (x y count : Nat) : Grid :=
  (List.range count).foldl (fun g i => g.modify (x + i) y fun _ => .blank) g

/-! Whole texts: a cluster without width is added to the cell before it. -/

/-- Writes what follows in a text that begins at the column `left`, from the column `x` on and
before the column `right`. As long as no column is taken, all stays together in the first cell. -/
def writeRest (g : Grid) (left right x y : Nat) : List StyledCluster → Grid
  | [] => g
  | c :: cs =>
    if right < x + c.width then g
    else
      let g :=
        if x = left then g.append x y c
        else if c.width = 0 then g.append (x - 1) y c
        else g.put x y c.text c.style
      (g.erase (x + 1) y (c.width - 1)).writeRest left right (x + c.width) y cs

/-- Writes a text from the left end of the first row of a rectangle. -/
def writeText (g : Grid) (r : Rect) (t : StyledText) : Grid :=
  match t.clusters with
  | [] => g
  | c :: cs =>
    if r.width < c.width then g
    else
      let g := (g.put r.x r.y c.text c.style).erase (r.x + 1) r.y (c.width - 1)
      g.writeRest r.x (r.x + r.width) (r.x + c.width) r.y cs

/-- Writes a line from the left end of the first row of a rectangle, without its texts that take no
column. -/
def write (g : Grid) (r : Rect) : List StyledText → Grid
  | [] => g
  | t :: ts =>
    if r.isEmpty then g
    else if t.width = 0 then g.write r ts
    else (g.writeText r t).write (r.indent t.width) ts

def writeLines (g : Grid) (r : Rect) (lines : List (List StyledText)) : Grid :=
  (lines.take r.height).zipIdx.foldl (fun g (line, i) => g.write (r.row i) line) g

/-! Visible texts: a cluster without width is left out. -/

/-- The first clusters of a line that fit into `room`, where `columns` is the room of a whole line.
Clusters are passed over that would fit into no line. -/
def fitting (columns room : Nat) : List StyledCluster → List StyledCluster
  | [] => []
  | c :: cs =>
    if columns < c.width then fitting columns room cs
    else if room < c.width then []
    else c :: fitting columns (room - c.width) cs

/-- The clusters of a line that a row of a rectangle shows. -/
def visible (r : Rect) (line : List StyledText) : List StyledCluster :=
  (fitting r.width r.width (line.flatMap StyledText.clusters)).filter (0 < ·.width)

def writeClusters (g : Grid) (x y : Nat) : List StyledCluster → Grid
  | [] => g
  | c :: cs => (g.put x y c.text c.style).writeClusters (x + c.width) y cs

/-- Writes what is visible of a line from the left end of the first row of a rectangle. -/
def writeVisible (g : Grid) (r : Rect) (line : List StyledText) : Grid :=
  if r.isEmpty then g else g.writeClusters r.x r.y (visible r line)

/-- Writes what is visible of a line to the right end of the first row of a rectangle. -/
def writeVisibleRight (g : Grid) (r : Rect) (line : List StyledText) : Grid :=
  let cs := visible r line
  let columns := cs.foldl (fun n c => n + c.width) 0
  if r.isEmpty then g else g.writeClusters (r.x + (r.width - columns)) r.y cs

/-- Writes what is visible of lines from the top of a rectangle. -/
def writeVisibleLines (g : Grid) (r : Rect) (lines : List (List StyledText)) : Grid :=
  (lines.take r.height).zipIdx.foldl (fun g (line, i) => g.writeVisible (r.row i) line) g

/-! Screens -/

/-- The cell is covered by the one before it, whose text takes several columns. -/
def isCovered (g : Grid) (i : Nat) : Bool :=
  0 < i && (g.cells[i - 1]?).any fun c => 1 < Text.columns c.text.toList

/-- The grid as a screen shows it: covered cells are blank, whatever they hold. -/
def shown (g : Grid) : Grid :=
  { g with cells := g.cells.mapIdx fun i c => if g.isCovered i then .blank else c }

/-- Draws a box along the edge of a rectangle, with a title in its upper side. -/
def box (g : Grid) (r : Rect) (title : String) (s : Style) : Grid :=
  if r.isEmpty then g
  else
    let right := r.x + r.width - 1
    let bottom := r.y + r.height - 1
    let g := g.fill ⟨r.x, r.y, 1, r.height⟩ "│" s
    let g := g.fill ⟨r.x, r.y, r.width, 1⟩ "─" s
    let g := g.fill ⟨right, r.y, 1, r.height⟩ "│" s
    let g := g.fill ⟨r.x, bottom, r.width, 1⟩ "─" s
    let g := g.put right bottom "┘" s
    let g := g.put right r.y "┐" s
    let g := g.put r.x bottom "└" s
    let g := g.put r.x r.y "┌" s
    g.write ⟨r.x + 1, r.y, r.width - 2, 1⟩ [⟨title, .plain⟩]

end Grid

end Footprint
