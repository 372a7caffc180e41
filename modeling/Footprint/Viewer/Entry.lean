import Footprint.Batch.Basic

set_option autoImplicit false

/-!
Runs as the viewer shows them.
-/

namespace Footprint

structure RunEntry where
  /-- The path of the input. -/
  label : String
  /-- The numbers of the executed lines, in whatever function they were. -/
  covered : List Nat
  output : List String
  /-- The coverage, unless the run failed. -/
  percentage : Option Float
  /-- The coverage in words, or what failed. -/
  summary : String

/-- The number in an ascending list, each once. -/
def insertNumber (n : Nat) : List Nat → List Nat
  | [] => [n]
  | k :: ks => if n = k then k :: ks else if n < k then n :: k :: ks else k :: insertNumber n ks

def Coverage.lineNumbers (c : Coverage) : List Nat :=
  (c.hits.map LineHit.line).foldr insertNumber []

def RunEntry.ofOutcome (o : Outcome) : RunEntry :=
  match o.result with
  | .ok r =>
    ⟨o.path, r.coverage.lineNumbers, r.output, some (r.coverage.percentage r.statements),
      r.summary ++ " " ++ r.coverage.text⟩
  | .error e => ⟨o.path, [], [], none, e.message⟩

end Footprint
