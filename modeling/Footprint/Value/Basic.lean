import Footprint.Binary64
import Footprint.Syntax.Tree
import Footprint.Value.Range

set_option autoImplicit false

/-!
The values of scripts. Lists, functions and scopes are shared and live in the store, where
references name them; all else is part of the value. Tuples and exceptions carry a number that tells
them apart from equal ones.
-/

namespace Footprint

structure ListRef where
  index : Nat
  deriving DecidableEq

structure FunctionRef where
  index : Nat
  deriving DecidableEq

structure ScopeRef where
  index : Nat
  deriving DecidableEq

inductive Builtin where
  | print | range | len | abs | min | max | int | str | bool | float | list | sum
  deriving DecidableEq

namespace Builtin

def all : List Builtin :=
  [print, range, len, abs, min, max, int, str, bool, float, list, sum]

def name : Builtin → String
  | print => "print" | range => "range" | len => "len" | abs => "abs" | min => "min"
  | max => "max" | int => "int" | str => "str" | bool => "bool" | float => "float"
  | list => "list" | sum => "sum"

def ofName? (s : String) : Option Builtin := all.find? (·.name == s)

end Builtin

inductive ListMethod where
  | append | pop
  deriving DecidableEq

namespace ListMethod

def name : ListMethod → String
  | append => "append" | pop => "pop"

def ofName? (s : String) : Option ListMethod := [append, pop].find? (·.name == s)

end ListMethod

inductive Value where
  | none
  | bool (b : Bool)
  | int (n : Int64)
  | float (x : Float)
  | str (s : String)
  | list (ref : ListRef)
  | tuple (id : Nat) (items : List Value)
  | range (r : Range)
  | function (ref : FunctionRef)
  | builtin (b : Builtin)
  | method (ref : ListRef) (m : ListMethod)
  /-- A class with the scope that holds its attributes. -/
  | classObject (name : String) (scope : ScopeRef) (isException : Bool)
  | exceptionType (name : String)
  | exception (id : Nat) (kind message : String)

namespace Value

def typeName : Value → String
  | none => "NoneType"
  | bool _ => "bool"
  | int _ => "int"
  | float _ => "float"
  | str _ => "str"
  | list _ => "list"
  | tuple .. => "tuple"
  | range _ => "range"
  | function _ => "function"
  | builtin _ | method .. => "builtin_function_or_method"
  | classObject .. | exceptionType _ => "type"
  | exception _ kind _ => kind

/-- The integer that an int or a bool stands for. -/
def asInt? : Value → Option Int64
  | int n => some n
  | bool b => some (if b then 1 else 0)
  | _ => Option.none

/-- The number that an int, a bool or a float stands for. -/
def asFloat? : Value → Option Float
  | float x => some x
  | v => v.asInt?.map Binary64.ofInt64

def isNumber : Value → Bool
  | int _ | bool _ | float _ => true
  | _ => false

def isSequence : Value → Bool
  | str _ | list _ | tuple .. => true
  | _ => false

/-- The two values are one object. Ranges, floats and bound methods never are. -/
def isSame : Value → Value → Bool
  | none, none => true
  | bool a, bool b => a == b
  | int a, int b => a == b
  | str a, str b => a == b
  | list a, list b => a == b
  | tuple a _, tuple b _ => a == b
  | function a, function b => a == b
  | builtin a, builtin b => a == b
  | classObject _ a _, classObject _ b _ => a == b
  | exceptionType a, exceptionType b => a == b
  | exception a .., exception b .. => a == b
  | _, _ => false

end Value

end Footprint
