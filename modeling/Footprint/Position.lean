set_option autoImplicit false

/-!
Where something stands in a source text: line and column, both from 1, columns in characters.
-/

namespace Footprint

structure Position where
  line : Nat
  column : Nat
  deriving DecidableEq, Inhabited

namespace Position

def start : Position := ⟨1, 1⟩

/-- The position after the character `c` standing at `p`; only a line feed ends a line. -/
def after (p : Position) (c : Char) : Position :=
  if c = '\n' then ⟨p.line + 1, 1⟩ else ⟨p.line, p.column + 1⟩

/-- The position after the characters `cs` of which the first stands at `p`. -/
def afterAll (p : Position) (cs : List Char) : Position := cs.foldl after p

end Position

end Footprint
