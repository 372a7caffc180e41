import Footprint.Position

set_option autoImplicit false

/-!
Time. The machine has no clock of its own: it is given one, which it reads when a run begins and
whenever it checks a deadline, and which may show anything.
-/

namespace Footprint

/-- What a clock shows at its first reading, at its second one, and so on, in nanoseconds. -/
def Clock := Nat → Nat

/-- Every reading is a nanosecond after the one before. -/
def Clock.steady : Clock := id

/-- How often the clock has been read, and what it showed when the run began. -/
structure Timer where
  readings : Nat
  started : Option Nat

namespace Timer

def new : Timer := ⟨0, none⟩

def start (t : Timer) (clock : Clock) : Timer := ⟨t.readings + 1, some (clock t.readings)⟩

/-- More time than so many milliseconds has passed since the run began. -/
def isOver (t : Timer) (clock : Clock) (milliseconds : Nat) : Bool :=
  match t.started with
  | some start => milliseconds * 1000000 < clock t.readings - start
  | none => false

def next (t : Timer) : Timer := { t with readings := t.readings + 1 }

end Timer

/-- The digits after the point of so many thousandths, without zeros at the end. -/
def thousandths (n : Nat) : List Char :=
  ((Nat.toDigits 10 (1000 + n % 1000)).tail.reverse.dropWhile (· = '0')).reverse

/-- A number of milliseconds as a text, in the largest unit of which it has at least one. -/
def durationText (milliseconds : Nat) : String :=
  if milliseconds = 0 then "0ns"
  else if milliseconds < 1000 then s!"{milliseconds}ms"
  else
    match thousandths milliseconds with
    | [] => s!"{milliseconds / 1000}s"
    | ds => s!"{milliseconds / 1000}.{String.ofList ds}s"

example : [0, 20, 3600000, 1050].map durationText = ["0ns", "20ms", "3600s", "1.05s"] := by decide

/-- A deadline that has been missed: the milliseconds there were, and where the run stood. -/
structure Overrun where
  milliseconds : Nat
  pos : Position
  deriving DecidableEq

end Footprint
