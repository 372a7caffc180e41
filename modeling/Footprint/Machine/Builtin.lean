import Footprint.Machine.Basic

set_option autoImplicit false

/-!
Calls that run no script code: the built-in functions, the methods of lists and the making of
exceptions.
-/

namespace Footprint

namespace Setting

variable {σ : Type}

open Footprint.Action

/-- How many values are gone through between two checks of the deadline. -/
def checkStride : Nat := 4096

/-- Goes through values, `step` taking each, with the deadline checked at the first of them and
again at the first of every further stride. -/
def goThrough {α : Type} (env : Setting σ) (step : α → Value → Action σ α) (a : α)
    (items : Items) : Action σ α := do
  let counted (acc : α × Nat) (v : Value) : Action σ (α × Nat) := do
    if acc.2 % checkStride = 0 then env.checkDeadline
    return (← step acc.1 v, acc.2 + 1)
  return (← items.fold counted (a, 0)).1

/-- The values of an iteration, all at once. -/
def collect (env : Setting σ) (p : Position) (v : Value) : Action σ (Array Value) := do
  lift p (Store.checkCollectable v)
  let items ← readAt p (·.iterate v)
  env.goThrough (fun vs v => return vs.push v) #[] items

/-- The texts of values, separated by blanks, as a line of output. -/
def print (args : List Value) : Action σ Value := do
  let texts ← read fun s => args.mapM s.show?
  let texts ← await texts
  write (" ".intercalate texts ++ "\n")
  return .none

/-- What the least or the greatest is looked for among: the arguments, or the values of the
only one. -/
def candidates (name : String) (args : List Value) (p : Position) : Action σ Items :=
  match args with
  | [] => raiseAt (.extremeArguments name) p
  | [v] => readAt p (·.iterate v)
  | vs => pure (.values vs)

/-- The least or the greatest of the arguments, or of the values of the only one. -/
def extreme (env : Setting σ) (name : String) (op : CompareOp) (args : List Value)
    (p : Position) : Action σ Value := do
  let items ← candidates name args p
  match items.next? with
  | none => raiseAt (.extremeOfNothing name) p
  | some (best, others) =>
    env.goThrough (fun best v => return if ← attemptAt p (·.compare op v best) then v else best)
      best others

/-- What is added up, and from what on. -/
def summands : List Value → Except Fault (Value × Value)
  | [v] => .ok (v, .int 0)
  | [v, start] => .ok (v, start)
  | args => .error (.sumArguments args.length)

/-- The values of the first argument added up, from the second one or from zero. -/
def sum (env : Setting σ) (args : List Value) (p : Position) : Action σ Value := do
  let operands ← lift p (summands args)
  let items ← readAt p (·.iterate operands.1)
  env.goThrough (fun total v => editAt p (·.binary .add total v)) operands.2 items

def callBuiltin (env : Setting σ) (b : Builtin) (args : List Value) (p : Position) :
    Action σ Value := do
  match b with
  | .print => print args
  | .range => lift p (makeRange args)
  | .len =>
    let v ← lift p (exactlyOne b.name args)
    let n ← readAt p (·.lengthOf v)
    return .int (.ofNat n)
  | .abs => lift p (exactlyOne b.name args >>= magnitude)
  | .min => env.extreme b.name .lt args p
  | .max => env.extreme b.name .gt args p
  | .int =>
    match ← lift p (atMostOne b.name args) with
    | none => return .int 0
    | some v => lift p (toInteger v)
  | .float =>
    match ← lift p (atMostOne b.name args) with
    | none => return .float 0.0
    | some v => lift p (toFloat v)
  | .str =>
    match ← lift p (atMostOne b.name args) with
    | none => return .str ""
    | some v =>
      let text ← read (·.show? v)
      return .str (← await text)
  | .bool =>
    match ← lift p (atMostOne b.name args) with
    | none => return .bool false
    | some v => return .bool (← read (·.isTruthy v))
  | .list =>
    match ← lift p (atMostOne b.name args) with
    | none => edit (Store.newList #[])
    | some v => edit (Store.newList (← env.collect p v))
  | .sum => env.sum args p

/-- Makes an exception of a class. -/
def instantiate (kind : String) (args : List Value) : Action σ Value := do
  let text ← read (·.exceptionText? args)
  edit (Store.newException kind (← await text))

end Setting

end Footprint
