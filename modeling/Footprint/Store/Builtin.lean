import Footprint.Store.Access
import Footprint.Store.Order
import Footprint.Store.Show
import Footprint.Text.Blank

set_option autoImplicit false

/-!
The built-in functions and the methods of lists, as far as they work on values alone.
-/

namespace Footprint

def exactlyOne (name : String) : List Value → Except Fault Value
  | [v] => .ok v
  | args => .error (.exactlyOneArgument name args.length)

def atMostOne (name : String) : List Value → Except Fault (Option Value)
  | [] => .ok none
  | [v] => .ok (some v)
  | args => .error (.atMostOneArgument name args.length)

/-- The integers that the values stand for. -/
def integers : List Value → Except Fault (List Int64)
  | [] => .ok []
  | v :: vs =>
    match v.asInt? with
    | some n => (integers vs).map (n :: ·)
    | none => .error (.notInteger v.typeName)

/-- A progression from its end, its ends, or its ends and its step. -/
def makeRange (args : List Value) : Except Fault Value := do
  let r : Range ←
    match ← integers args with
    | [stop] => pure ⟨0, stop, 1⟩
    | [start, stop] => pure ⟨start, stop, 1⟩
    | [start, stop, step] => pure ⟨start, stop, step⟩
    | [] => .error .rangeWithoutArguments
    | _ => .error (.rangeArguments args.length)
  if r.step = 0 then .error .rangeStepZero else return .range r

/-- A value as an integer: floats lose their fraction, texts are read. -/
def toInteger : Value → Except Fault Value
  | .float x =>
    if x.isNaN then .error .integerOfNan
    else
      let t := Binary64.trunc x
      if t < -9223372036854775808.0 || t ≥ 9223372036854775808.0 then .error .integerOfLargeFloat
      else .ok (.int t.toInt64)
  | .str s =>
    match Decimal.readInt? (Text.trim s.toList) with
    | some n => .ok (.int n)
    | none => .error (.integerText (Text.quoted s))
  | v =>
    match v.asInt? with
    | some n => .ok (.int n)
    | none => .error (.integerArgument v.typeName)

def toFloat : Value → Except Fault Value
  | .str s =>
    match Decimal.readFloat? (Text.trim s.toList) with
    | some x => .ok (.float x)
    | none => .error (.floatText (Text.quoted s))
  | v =>
    match v.asFloat? with
    | some x => .ok (.float x)
    | none => .error (.floatArgument v.typeName)

def magnitude : Value → Except Fault Value
  | .float x => .ok (.float x.abs)
  | v =>
    match v.asInt? with
    | some n => narrow n.toInt.natAbs
    | none => .error (.noMagnitude v.typeName)

namespace Store

/-- The number of items of a value, or of characters of a text. -/
def lengthOf (s : Store) : Value → Except Fault Nat
  | .str t => .ok t.length
  | .list r => .ok (s.size r)
  | .tuple _ items => .ok items.length
  | .range r => .ok r.length
  | v => .error (.noLength v.typeName)

/-- The message of an exception made by its class: the text of its argument, or of all of them as a
tuple. -/
def exceptionText? (s : Store) : List Value → Option String
  | [] => some ""
  | [v] => s.show? v
  | vs => s.show? (.tuple s.nextId vs)

def callMethod (s : Store) (r : ListRef) (m : ListMethod) (args : List Value) :
    Except Fault (Edit Value) :=
  match m with
  | .append =>
    match args with
    | [v] => .ok fun s => (.none, s.modifyList r (·.push v))
    | _ => .error (.appendArguments args.length)
  | .pop => do
    let n := s.size r
    if n = 0 then .error .popFromEmpty
    else
      let i ← match ← atMostOne "pop" args with
        | none => pure (n - 1)
        | some index => place index n .pop
      let item := (s.items r).getD i .none
      return fun s => (item, s.modifyList r (·.eraseIdxIfInBounds i))

end Store

end Footprint
