import Footprint.Decimal.Layout
import Footprint.Trace.Coverage

set_option autoImplicit false

/-!
How much of a program a set of executed lines is. Lines of statements that are not counted may be
executed too, so it can be more than all of it.
-/

namespace Footprint.Coverage

/-- The lines of the set as a percentage of the statements; of none at all it is zero. -/
def percentage (c : Coverage) (statements : Nat) : Float :=
  if statements = 0 then 0.0 else Float.ofNat c.size / Float.ofNat statements * 100.0

def summary (c : Coverage) (statements : Nat) : String :=
  "Statement Coverage: " ++ Decimal.fixed 2 (c.percentage statements) ++ "%"

end Footprint.Coverage
