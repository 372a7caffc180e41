import Footprint.Text.Cluster
import Footprint.Text.Width

set_option autoImplicit false

/-!
Colors, styles and texts in a style.
-/

namespace Footprint

inductive Color where
  /-- The color that the screen has by itself. -/
  | preset
  | black
  | rgb (r g b : UInt8)
  deriving DecidableEq

/-- What a style says; where it says nothing, what was there before stays. -/
structure Style where
  front : Option Color
  back : Option Color
  bold : Bool
  deriving DecidableEq

namespace Style

def plain : Style := ⟨none, none, false⟩

def ink (c : Color) : Style := { plain with front := some c }

def paper (c : Color) : Style := { plain with back := some c }

/-- The style with a color behind the text. -/
def on (s : Style) (c : Color) : Style := { s with back := some c }

def inBold (s : Style) : Style := { s with bold := true }

end Style

/-- One cluster, which takes so many columns, in a style. -/
structure StyledCluster where
  text : String
  width : Nat
  style : Style
  deriving DecidableEq

structure StyledText where
  text : String
  style : Style
  deriving DecidableEq

namespace StyledText

def clusters (t : StyledText) : List StyledCluster :=
  ((Text.clusters t.text.toList).filter (· ≠ ['\n'])).map fun cs =>
    ⟨.ofList cs, Text.columns cs, t.style⟩

def width (t : StyledText) : Nat := Text.columns t.text.toList

def unstyled (ts : List StyledText) : String := String.join (ts.map (·.text))

end StyledText

end Footprint
