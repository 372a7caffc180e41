import Footprint.Proofs.HighlightedText
import Footprint.Viewer.Frame

set_option autoImplicit false

/-!
The viewer's state while keys are pressed and frames are drawn, in any order and at any sizes of the
terminal. Keys move the scroll offsets without knowing what the panes can show, and each frame
brings them back; so what is said about the offsets holds after frames, and what is said about the
selected run holds always.
-/

namespace Footprint

/-- What happens to a viewer. -/
inductive ViewerEvent where
  | key (k : Key)
  | frame (width height : Nat)

namespace Viewer

def handle (v : Viewer) : ViewerEvent → Viewer
  | .key k => v.press k
  | .frame width height => (v.draw width height).1

def after (v : Viewer) (es : List ViewerEvent) : Viewer := es.foldl handle v

/-! ### Single events -/

/-- What an event does at most: it may select another run, and then the output is shown from its
first line. -/
structure Moves (v w : Viewer) : Prop where
  runs : w.runs = v.runs
  source : w.source = v.source
  selected : w.selected ≤ v.selected ∨ w.selected < v.runs.size
  rewound : w.selected ≠ v.selected → w.outputScroll = 0

/-- Nothing but the focus, the offsets and the wish to quit have changed. -/
theorem Moves.of_same {v w : Viewer} (runs : w.runs = v.runs) (source : w.source = v.source)
    (selected : w.selected = v.selected) : Moves v w :=
  ⟨runs, source, .inl (Nat.le_of_eq selected), fun changed => absurd selected changed⟩

theorem selectPrevious_moves (v : Viewer) : Moves v v.selectPrevious := by
  rw [selectPrevious]
  split
  · exact ⟨rfl, rfl, .inl (Nat.sub_le _ _), fun _ => rfl⟩
  · exact .of_same rfl rfl rfl

theorem selectNext_moves (v : Viewer) : Moves v v.selectNext := by
  rw [selectNext]
  split
  case isTrue inside => exact ⟨rfl, rfl, .inr inside, fun _ => rfl⟩
  case isFalse => exact .of_same rfl rfl rfl

theorem moveUp_moves (v : Viewer) : Moves v v.moveUp := by
  rw [moveUp]
  split
  case h_1 => exact v.selectPrevious_moves
  all_goals exact .of_same rfl rfl rfl

theorem moveDown_moves (v : Viewer) : Moves v v.moveDown := by
  rw [moveDown]
  split
  case h_1 => exact v.selectNext_moves
  all_goals exact .of_same rfl rfl rfl

theorem press_moves (v : Viewer) (k : Key) : Moves v (v.press k) := by
  cases k with
  | left => exact v.selectPrevious_moves
  | right => exact v.selectNext_moves
  | up => exact v.moveUp_moves
  | down => exact v.moveDown_moves
  | character c =>
    rw [press]
    split <;> exact .of_same rfl rfl rfl
  | escape | tab | backTab | other => exact .of_same rfl rfl rfl

theorem handle_moves (v : Viewer) (e : ViewerEvent) : Moves v (v.handle e) := by
  cases e with
  | key k => exact v.press_moves k
  | frame => exact .of_same rfl rfl rfl

/-! ### All events -/

/-- The viewer shows these runs and this script, and if there are runs then one is selected. -/
structure Shows (runs : List RunEntry) (source : String) (v : Viewer) : Prop where
  runs_eq : v.runs = runs.toArray
  source_eq : v.source = source
  selected : if runs = [] then v.selected = 0 else v.selected < runs.length

variable {runs : List RunEntry} {source : String}

theorem Shows.start : Shows runs source (start runs source) := by
  refine ⟨rfl, rfl, ?_⟩
  split
  case isTrue => rfl
  case isFalse some => exact List.length_pos_iff.mpr some

theorem Shows.moves {v w : Viewer} (shows : Shows runs source v) (moves : Moves v w) :
    Shows runs source w := by
  refine ⟨moves.runs.trans shows.runs_eq, moves.source.trans shows.source_eq, ?_⟩
  have before := shows.selected
  have moved := moves.selected
  rw [shows.runs_eq, List.size_toArray] at moved
  split at before
  case isTrue none =>
    subst none
    rcases moved with below | inside
    · exact Nat.le_zero.mp (before ▸ below)
    · exact absurd inside (Nat.not_lt_zero _)
  case isFalse some =>
    rw [if_neg some]
    omega

theorem Shows.after {v : Viewer} (shows : Shows runs source v) (es : List ViewerEvent) :
    Shows runs source (v.after es) := by
  induction es generalizing v with
  | nil => exact shows
  | cons e es ih => exact ih (shows.moves (v.handle_moves e))

theorem Shows.current? {v : Viewer} (shows : Shows runs source v) :
    v.current? = runs[v.selected]? := by
  rw [Viewer.current?, shows.runs_eq, List.getElem?_toArray]

/-! ### Frames -/

theorem clampScroll_le (scroll lines window : Nat) :
    clampScroll scroll lines window ≤ lines - window := Nat.min_le_right _ _

/-- What is read in a row of the script: its mark, its number, and the line as it is. -/
theorem unstyled_sourceLine (isMarked : Bool) (n : Nat) (text : String) :
    StyledText.unstyled (sourceLine isMarked n text) =
      (if isMarked then "| " else "  ") ++ padded 4 (toString n) ++ " " ++ text := by
  have keeps : Highlight.characters (Highlight.line text) = text.toList :=
    Highlight.characters_line text
  apply String.toList_inj.mp
  rw [Highlight.toList_unstyled, sourceLine, Highlight.characters_cons]
  cases isMarked with
  | false => simp [keeps]
  | true => simpa [Highlight.characters, List.flatMap_map] using keeps

theorem length_sourceWindow (v : Viewer) (window : Nat) :
    (v.sourceWindow window).length = min window (v.sourceLines.length - v.sourceScroll) := by
  simp [sourceWindow]

/-- The window has the lines from the offset on, each with its number. -/
theorem of_mem_sourceWindow {v : Viewer} {window i n : Nat} {text : String}
    (here : (v.sourceWindow window)[i]? = some (n, text)) :
    n = v.sourceScroll + 1 + i ∧ v.sourceLines[v.sourceScroll + i]? = some text := by
  simp only [sourceWindow, List.getElem?_map, List.getElem?_take, List.getElem?_drop,
    List.getElem?_zipIdx, Option.map_eq_some_iff, Option.ite_none_right_eq_some, Prod.exists,
    Prod.mk.injEq] at here
  obtain ⟨line, number, ⟨-, _, at_, rfl, rfl⟩, rfl, rfl⟩ := here
  exact ⟨by omega, at_⟩

/-- A frame with these rows in the pane of the script. -/
def frameOf (v : Viewer) (width height : Nat) (rows : List (List StyledText)) : Grid :=
  let l := ViewerLayout.ofSize width height
  let g := v.drawOutput l.output (v.drawRuns l.runs (Grid.blank width height))
  let g := g.box l.source " Source Code " (v.borderStyle .source)
  (v.drawStatus l.status (g.writeVisibleLines l.source.inside rows)).shown

/-- The row shows the line of the script with this number, marked just if the run executed it. -/
def ScriptRow (source : String) (run : Option RunEntry) (n : Nat) (row : List StyledText) : Prop :=
  ∃ isMarked text, (isMarked = true ↔ ∃ r, run = some r ∧ n ∈ r.covered) ∧
    0 < n ∧ (Text.lines source)[n - 1]? = some text ∧ row = sourceLine isMarked n text ∧
    StyledText.unstyled row =
      (if isMarked then "| " else "  ") ++ padded 4 (toString n) ++ " " ++ text

/-- A frame for a terminal of some size, and the viewer right after it. -/
structure Framed (runs : List RunEntry) (source : String) (width height : Nat) (v : Viewer)
    (frame : Grid) : Prop where
  /-- The last lines of the script fill its pane at the latest. -/
  sourceScroll : v.sourceScroll ≤
    (Text.lines source).length - max 1 ((ViewerLayout.ofSize width height).source.height - 2)
  /-- The pane of the script is given as many rows as it has room for and as there are lines: these
  rows show the lines from the offset on. -/
  rows : ∃ rows, frame = v.frameOf width height rows ∧
    rows.length = min (max 1 ((ViewerLayout.ofSize width height).source.height - 2))
      (Text.lines source).length ∧
    ∀ i row, rows[i]? = some row → ScriptRow source runs[v.selected]? (v.sourceScroll + 1 + i) row
  /-- The last lines of the output fill its pane at the latest. -/
  outputScroll : ∀ r, runs[v.selected]? = some r → 0 < r.output.length →
    v.outputScroll ≤ r.output.length - max 1 ((ViewerLayout.ofSize width height).output.height - 2)

theorem settle_sourceScroll_le (v : Viewer) (l : ViewerLayout) :
    (v.settle l).sourceScroll ≤ v.sourceLines.length - max 1 (l.source.height - 2) := by
  rw [Nat.max_comm]
  exact clampScroll_le ..

theorem settle_outputScroll_le {v : Viewer} {r : RunEntry} (l : ViewerLayout)
    (current : v.current? = some r) (written : 0 < r.output.length) :
    (v.settle l).outputScroll ≤ r.output.length - max 1 (l.output.height - 2) := by
  rw [Nat.max_comm, settle]
  simp only [current, Option.map_some, Option.getD_some, Nat.pos_iff_ne_zero.mp written, ↓reduceIte]
  exact clampScroll_le ..

/-- The offset leaves as many lines as the pane has room for, if there are as many at all. -/
theorem settled_rows (v : Viewer) (l : ViewerLayout) :
    min l.source.visibleLines (v.sourceLines.length - (v.settle l).sourceScroll) =
      min (max 1 (l.source.height - 2)) v.sourceLines.length := by
  have top := v.settle_sourceScroll_le l
  rw [Rect.visibleLines]
  omega

theorem draw_eq (v : Viewer) (width height : Nat) :
    (v.draw width height).2 = (v.draw width height).1.frameOf width height
      (((v.draw width height).1.sourceWindow
        (ViewerLayout.ofSize width height).source.visibleLines).map fun (n, text) =>
          sourceLine ((v.draw width height).1.isCovered n) n text) := by
  simp only [draw, drawSource, frameOf]

theorem isCovered_iff (v : Viewer) (n : Nat) :
    v.isCovered n = true ↔ ∃ r, v.current? = some r ∧ n ∈ r.covered := by
  simp [isCovered, Option.any_eq_true]

theorem Shows.framed {v : Viewer} (shows : Shows runs source v) (width height : Nat) :
    Framed runs source width height (v.draw width height).1 (v.draw width height).2 := by
  have lines : v.sourceLines = Text.lines source := by rw [sourceLines, shows.source_eq]
  have current : runs[(v.draw width height).1.selected]? = v.current? := shows.current?.symm
  refine ⟨?_, ?_, ?_⟩
  case refine_1 =>
    rw [← lines]
    exact v.settle_sourceScroll_le _
  case refine_2 =>
    rw [← lines, current]
    refine ⟨_, v.draw_eq width height, ?_, ?_⟩
    · rw [List.length_map, length_sourceWindow]
      exact v.settled_rows _
    · intro i row here
      obtain ⟨⟨n, text⟩, shown, rfl⟩ := Option.map_eq_some_iff.mp (List.getElem?_map ▸ here)
      obtain ⟨rfl, line⟩ := of_mem_sourceWindow shown
      refine ⟨v.isCovered _, text, v.isCovered_iff _, by omega, ?_, rfl, unstyled_sourceLine ..⟩
      rw [← lines, show (v.draw width height).1.sourceScroll + 1 + i - 1 =
        (v.draw width height).1.sourceScroll + i by omega]
      exact line
  case refine_3 =>
    intro r selected written
    exact settle_outputScroll_le _ (current.symm.trans selected) written

/-- What holds of the viewer at any time. -/
structure Valid (runs : List RunEntry) (source : String) (v : Viewer) : Prop where
  /-- One of the runs is selected if there are any. -/
  selected : if runs = [] then v.selected = 0 else v.selected < runs.length
  /-- Whatever the size of the terminal is now, a frame shows what there is. -/
  framed : ∀ width height,
    Framed runs source width height (v.draw width height).1 (v.draw width height).2
  /-- When another run gets selected its output is shown from the first line on. -/
  rewound : ∀ e, (v.handle e).selected ≠ v.selected → (v.handle e).outputScroll = 0

end Viewer

end Footprint
