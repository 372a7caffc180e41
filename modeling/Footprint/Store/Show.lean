import Footprint.Decimal.Layout
import Footprint.Store.Basic
import Footprint.Text.Quoted

set_option autoImplicit false

/-!
The text of values. A list that holds itself has no text: writing it does not end, and the functions
here give nothing.
-/

namespace Footprint

/-- The text of a range; a step of one is left out. -/
def Range.text (r : Range) : String :=
  if r.step = 1 then s!"range({r.start.toInt}, {r.stop.toInt})"
  else s!"range({r.start.toInt}, {r.stop.toInt}, {r.step.toInt})"

/-- Further texts after `text`, each with a comma and a blank before it, if there are all
of them. -/
def joinOnto? (text : String) : List (Option String) → Option String
  | [] => some text
  | t :: ts => do joinOnto? (text ++ ", " ++ (← t)) ts

/-- Texts joined by a comma and a blank, if there are all of them. -/
def joined? : List (Option String) → Option String
  | [] => some ""
  | t :: ts => do joinOnto? (← t) ts

namespace Value

mutual

/-- The text that stands for a value where it is an item, `names` giving the names of functions and
`list` the texts of lists. -/
def reprWith (names : FunctionRef → String) (list : ListRef → Option String) :
    Value → Option String
  | .str s => some (Text.quoted s)
  | .exception _ kind message =>
    some (kind ++ "(" ++ (if message.isEmpty then "" else Text.quoted message) ++ ")")
  | .none => some "None"
  | .bool b => some (if b then "True" else "False")
  | .int n => some (toString n.toInt)
  | .float x => some (Decimal.scriptLayout.write x)
  | .list r => list r
  | .tuple _ items => do
    let text ← joined? (reprsWith names list items)
    return "(" ++ text ++ (if items.length = 1 then ",)" else ")")
  | .range r => some r.text
  | .function r => some ("<function " ++ names r ++ ">")
  | .builtin b => some ("<built-in function " ++ b.name ++ ">")
  | .method _ m => some ("<built-in method " ++ m.name ++ " of list object>")
  | .classObject name _ _ => some ("<class '" ++ name ++ "'>")
  | .exceptionType name => some ("<class '" ++ name ++ "'>")

def reprsWith (names : FunctionRef → String) (list : ListRef → Option String) :
    List Value → List (Option String)
  | [] => []
  | v :: vs => reprWith names list v :: reprsWith names list vs

end

theorem reprsWith_eq (names : FunctionRef → String) (list : ListRef → Option String)
    (vs : List Value) : reprsWith names list vs = vs.map (reprWith names list) := by
  induction vs with
  | nil => rfl
  | cons v vs ih => rw [reprsWith, List.map_cons, ih]

end Value

namespace Store

/-- The text of a value as an item; lists may be nested `depth` deep. -/
def reprWithin (s : Store) : Nat → Value → Option String
  | 0 => Value.reprWith s.functionName fun _ => none
  | depth + 1 => Value.reprWith s.functionName fun r => do
    let text ← joined? ((s.items r).toList.map (s.reprWithin depth))
    return "[" ++ text ++ "]"

theorem reprWithin_list (s : Store) (d : Nat) (r : ListRef) : s.reprWithin (d + 1) (.list r) =
    (joined? ((s.items r).toList.map (s.reprWithin d))).map fun text => "[" ++ text ++ "]" := by
  simp only [reprWithin, Value.reprWith, bind_pure_comp, Option.map_eq_map]

theorem reprWithin_tuple (s : Store) (d id : Nat) (vs : List Value) :
    s.reprWithin d (.tuple id vs) = (joined? (vs.map (s.reprWithin d))).map fun text =>
      "(" ++ text ++ (if vs.length = 1 then ",)" else ")") := by
  cases d <;>
    simp only [reprWithin, Value.reprWith, Value.reprsWith_eq, bind_pure_comp, Option.map_eq_map]

/-- The text of a value as an item. A list inside of which so many lists are nested as there are
lists holds itself. -/
def repr? (s : Store) (v : Value) : Option String := s.reprWithin (s.lists.size + 1) v

/-- The text of a value on its own: strings and exceptions show what they hold. -/
def show? (s : Store) : Value → Option String
  | .str t => some t
  | .exception _ _ message => some message
  | v => s.repr? v

end Store

end Footprint
