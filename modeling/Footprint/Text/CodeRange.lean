set_option autoImplicit false

/-!
Inclusive ranges of code points, the form in which the tables of Unicode properties are kept.
-/

namespace Footprint.Text

/-- The code points from the first component to the second, both included. -/
abbrev CodeRange := Nat × Nat

/-- The character's code point lies in the range. -/
def CodeRange.covers (r : CodeRange) (c : Char) : Bool := r.1 ≤ c.toNat && c.toNat ≤ r.2

end Footprint.Text
