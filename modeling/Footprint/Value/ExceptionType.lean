set_option autoImplicit false

/-!
The exception classes that scripts find ready, and which handlers catch them.
-/

namespace Footprint

/-- The exception classes with their parents, which come before them. -/
def exceptionTypes : List (String × Option String) := [
  ("BaseException", none),
  ("Exception", some "BaseException"),
  ("ArithmeticError", some "Exception"),
  ("ZeroDivisionError", some "ArithmeticError"),
  ("OverflowError", some "ArithmeticError"),
  ("LookupError", some "Exception"),
  ("IndexError", some "LookupError"),
  ("KeyError", some "LookupError"),
  ("NameError", some "Exception"),
  ("UnboundLocalError", some "NameError"),
  ("TypeError", some "Exception"),
  ("ValueError", some "Exception"),
  ("AttributeError", some "Exception"),
  ("AssertionError", some "Exception"),
  ("ImportError", some "Exception"),
  ("ModuleNotFoundError", some "ImportError"),
  ("RuntimeError", some "Exception"),
  ("RecursionError", some "RuntimeError"),
  ("NotImplementedError", some "RuntimeError"),
  ("MemoryError", some "Exception")]

/-- The class `handler` is `kind` or above it, by a list in which parents come after
their children. -/
def isAbove (handler : String) : String → List (String × Option String) → Bool
  | kind, [] => kind == handler
  | kind, (name, parent) :: rest =>
    kind == handler ||
      if name = kind then parent.any (isAbove handler · rest) else isAbove handler kind rest

/-- A handler for the class `handler` catches an exception of class `kind`. Classes that scripts
define are caught under their own name and by the two roots only. -/
def catches (kind handler : String) : Bool :=
  handler == "BaseException" || handler == "Exception" ||
    isAbove handler kind exceptionTypes.reverse

end Footprint
