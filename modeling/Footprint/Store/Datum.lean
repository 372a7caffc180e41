import Footprint.Store.Show
import Footprint.Value.Items

set_option autoImplicit false

/-!
Values given from outside, as trees: each list, tuple and exception of a tree is an object of its
own. And values shown to the outside, as texts.
-/

namespace Footprint

inductive Datum where
  | none
  | bool (b : Bool)
  | int (n : Int64)
  | float (x : Float)
  | str (s : String)
  | list (items : List Datum)
  | tuple (items : List Datum)
  | range (r : Range)
  | builtin (b : Builtin)
  | exceptionType (name : String)
  | exception (kind message : String)

namespace Datum

mutual

def make : Datum → Edit Value
  | none => .value .none
  | bool b => .value (.bool b)
  | int n => .value (.int n)
  | float x => .value (.float x)
  | str t => .value (.str t)
  | list items => fun s =>
    let (vs, s) := makeAll items s
    Store.newList vs.toArray s
  | tuple items => fun s =>
    let (vs, s) := makeAll items s
    Store.newTuple vs s
  | range r => .value (.range r)
  | builtin b => .value (.builtin b)
  | exceptionType name => .value (.exceptionType name)
  | exception kind message => Store.newException kind message

/-- Makes the values that trees describe, from left to right. -/
def makeAll : List Datum → Edit (List Value)
  | [] => fun s => ([], s)
  | d :: ds => fun s =>
    let (v, s) := make d s
    let (vs, s) := makeAll ds s
    (v :: vs, s)

end

end Datum

/-- How a value is shown: its type, its text on its own and its text as an item. A value whose text
would not end has none. -/
structure Shown where
  type : String
  text : Option String
  itemText : Option String

def Store.shown (s : Store) (v : Value) : Shown := ⟨v.typeName, s.show? v, s.repr? v⟩

end Footprint
