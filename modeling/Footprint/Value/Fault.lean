import Footprint.Syntax.Operator

set_option autoImplicit false

/-!
What can go wrong in a script: each fault with the class and the message of the exception it raises.
Some faults have no class, as what they ask for is not supported; they end the run.
-/

namespace Footprint

/-- What an index is used on. -/
inductive Indexed where
  | list | tuple | string | range | pop
  deriving DecidableEq

namespace Indexed

def typeText : Indexed → String
  | list => "list" | tuple => "tuple" | string => "string" | range => "range" | pop => "pop"

def rangeText : Indexed → String
  | range => "range object"
  | i => i.typeText

end Indexed

/-- The faults of scripts; `left`, `right` and `type` are names of types. -/
inductive Fault where
  -- arithmetic
  | integerOverflow
  | divisionByZero
  | integerFloorByZero
  | integerModuloByZero
  | floatDivisionByZero
  | floatFloorByZero
  | floatModuloByZero
  | zeroToNegativePower
  | complexResult
  | operands (op : BinaryOp) (left right : String)
  | unaryOperand (op : UnaryOp) (type : String)
  | concatenation (left right : String)
  | repetition (type : String)
  | tooLong
  -- comparison
  | unordered (op : CompareOp) (left right : String)
  | substring (type : String)
  | notContainer (type : String)
  -- items and attributes
  | notIterable (type : String)
  | notSubscriptable (type : String)
  | indexType (on : Indexed) (type : String)
  | indexRange (on : Indexed)
  | noItemAssignment (type : String)
  | noItemDeletion (type : String)
  | noAttribute (type attr : String)
  | noClassAttribute (name attr : String)
  | readOnlyAttribute (type attr : String)
  | tooFewToUnpack (expected got : Nat)
  | tooManyToUnpack (expected : Nat)
  -- names
  | undefinedName (name : String)
  | unboundLocal (name : String)
  | noNonlocal (name : String)
  | noModule (name : String)
  | relativeImport
  | cannotAssign
  | cannotDelete
  | cannotAugment
  -- calls
  | notCallable (type : String)
  | instanceOf (name : String)
  | tooManyArguments (name : String) (total required given : Nat)
  | missingArguments (name : String) (params : List String)
  | recursionLimit
  -- built-in functions
  | exactlyOneArgument (name : String) (given : Nat)
  | atMostOneArgument (name : String) (given : Nat)
  | appendArguments (given : Nat)
  | sumArguments (given : Nat)
  | extremeArguments (name : String)
  | extremeOfNothing (name : String)
  | popFromEmpty
  | rangeWithoutArguments
  | rangeArguments (given : Nat)
  | rangeStepZero
  | notInteger (type : String)
  | noLength (type : String)
  | noMagnitude (type : String)
  | integerText (quoted : String)
  | integerArgument (type : String)
  | floatText (quoted : String)
  | floatArgument (type : String)
  | integerOfNan
  | integerOfLargeFloat
  -- exceptions
  | notRaisable
  | notCatchable
  | nothingToReraise
  | noContext (type : String)
  | assertion (message : String)
  deriving DecidableEq

namespace Fault

def plural (n : Nat) : String := if n = 1 then "" else "s"

def enumeration : List String → String
  | [] => ""
  | [a] => a
  | [a, b] => a ++ " and " ++ b
  | a :: b :: c :: rest =>
    ", ".intercalate ((a :: b :: c :: rest).dropLast) ++ ", and " ++ (c :: rest).getLastD ""

def arity (total required : Nat) : String :=
  if required = total then s!"{total} positional argument{plural total}"
  else s!"from {required} to {total} positional arguments"

/-- The class of the exception that a fault raises, if it raises one. -/
def kind? : Fault → Option String
  | complexResult | instanceOf _ | cannotAssign | cannotDelete | cannotAugment => none
  | integerOverflow | integerOfLargeFloat => some "OverflowError"
  | divisionByZero | integerFloorByZero | integerModuloByZero | floatDivisionByZero
  | floatFloorByZero | floatModuloByZero | zeroToNegativePower => some "ZeroDivisionError"
  | tooLong => some "MemoryError"
  | indexRange _ | popFromEmpty => some "IndexError"
  | noAttribute .. | noClassAttribute .. | readOnlyAttribute .. => some "AttributeError"
  | tooFewToUnpack .. | tooManyToUnpack _ | extremeOfNothing _ | rangeStepZero | integerText _
  | floatText _ | integerOfNan => some "ValueError"
  | undefinedName _ | noNonlocal _ => some "NameError"
  | unboundLocal _ => some "UnboundLocalError"
  | noModule _ => some "ModuleNotFoundError"
  | relativeImport => some "ImportError"
  | recursionLimit => some "RecursionError"
  | nothingToReraise => some "RuntimeError"
  | assertion _ => some "AssertionError"
  | _ => some "TypeError"

def message : Fault → String
  | integerOverflow => "integer overflow"
  | divisionByZero => "division by zero"
  | integerFloorByZero => "integer division or modulo by zero"
  | integerModuloByZero => "integer modulo by zero"
  | floatDivisionByZero => "float division by zero"
  | floatFloorByZero => "float floor division by zero"
  | floatModuloByZero => "float modulo"
  | zeroToNegativePower => "0.0 cannot be raised to a negative power"
  | complexResult => "complex number results"
  | operands op left right =>
    s!"unsupported operand type(s) for {op.symbol}: '{left}' and '{right}'"
  | unaryOperand op type => s!"bad operand type for unary {op.symbol}: '{type}'"
  | concatenation left right => s!"can only concatenate {left} (not \"{right}\") to {left}"
  | repetition type => s!"can't multiply sequence by non-int of type '{type}'"
  | tooLong => ""
  | unordered op left right =>
    s!"'{op.symbol}' not supported between instances of '{left}' and '{right}'"
  | substring type => s!"'in <string>' requires string as left operand, not {type}"
  | notContainer type => s!"argument of type '{type}' is not iterable"
  | notIterable type => s!"'{type}' object is not iterable"
  | notSubscriptable type => s!"'{type}' object is not subscriptable"
  | indexType on type => s!"{on.typeText} indices must be integers or slices, not {type}"
  | indexRange on => s!"{on.rangeText} index out of range"
  | noItemAssignment type => s!"'{type}' object does not support item assignment"
  | noItemDeletion type => s!"'{type}' object doesn't support item deletion"
  | noAttribute type attr => s!"'{type}' object has no attribute '{attr}'"
  | noClassAttribute name attr => s!"type object '{name}' has no attribute '{attr}'"
  | readOnlyAttribute type attr => s!"'{type}' object attribute '{attr}' is read-only"
  | tooFewToUnpack expected got =>
    s!"not enough values to unpack (expected {expected}, got {got})"
  | tooManyToUnpack expected => s!"too many values to unpack (expected {expected})"
  | undefinedName name => s!"name '{name}' is not defined"
  | unboundLocal name =>
    s!"cannot access local variable '{name}' where it is not associated with a value"
  | noNonlocal name => s!"no binding for nonlocal '{name}' found"
  | noModule name => s!"No module named '{name}'"
  | relativeImport => "attempted relative import with no known parent package"
  | cannotAssign => "cannot assign to expression"
  | cannotDelete => "cannot delete expression"
  | cannotAugment => "illegal target for augmented assignment"
  | notCallable type => s!"'{type}' object is not callable"
  | instanceOf name => s!"creating instances of class '{name}'"
  | tooManyArguments name total required given =>
    let verb := if given = 1 then "was" else "were"
    s!"{name}() takes {arity total required} but {given} {verb} given"
  | missingArguments name params =>
    let quoted := params.map fun p => "'" ++ p ++ "'"
    s!"{name}() missing {params.length} required positional argument{plural params.length}: " ++
      enumeration quoted
  | recursionLimit => "maximum recursion depth exceeded"
  | exactlyOneArgument name given => s!"{name}() takes exactly one argument ({given} given)"
  | atMostOneArgument name given => s!"{name}() takes at most 1 argument ({given} given)"
  | appendArguments given => s!"list.append() takes exactly one argument ({given} given)"
  | sumArguments given => s!"sum() takes at most 2 arguments ({given} given)"
  | extremeArguments name => s!"{name} expected at least 1 argument, got 0"
  | extremeOfNothing name => s!"{name}() arg is an empty sequence"
  | popFromEmpty => "pop from empty list"
  | rangeWithoutArguments => "range expected at least 1 argument, got 0"
  | rangeArguments given => s!"range expected at most 3 arguments, got {given}"
  | rangeStepZero => "range() arg 3 must not be zero"
  | notInteger type => s!"'{type}' object cannot be interpreted as an integer"
  | noLength type => s!"object of type '{type}' has no len()"
  | noMagnitude type => s!"bad operand type for abs(): '{type}'"
  | integerText quoted => s!"invalid literal for int() with base 10: {quoted}"
  | integerArgument type =>
    s!"int() argument must be a string, a bytes-like object or a real number, not '{type}'"
  | floatText quoted => s!"could not convert string to float: {quoted}"
  | floatArgument type => s!"float() argument must be a string or a real number, not '{type}'"
  | integerOfNan => "cannot convert float NaN to integer"
  | integerOfLargeFloat => "cannot convert float to integer"
  | notRaisable => "exceptions must derive from BaseException"
  | notCatchable => "catching classes that do not inherit from BaseException is not allowed"
  | nothingToReraise => "No active exception to reraise"
  | noContext type => s!"'{type}' object does not support the context manager protocol"
  | assertion message => message

end Fault

end Footprint
