import Footprint.Token.Error
import Footprint.Token.Kind

set_option autoImplicit false

/-!
What can be wrong with a script: a fault of its tokens, or tokens in an order the grammar does not
know.
-/

namespace Footprint.Parser

/-- Where in the grammar a certain mark is required. -/
inductive Place where
  | arguments | subscript | conditional | parenthesis | tuple | listItems
  | statement | ifTest | elseWord | whileTest | forClause | forTarget | tryWord | exceptClause
  | finallyWord | withItems | moduleName | importedNames | decorator | asyncWord
  | functionName | parameters | functionBody | baseClasses | classBody
  deriving DecidableEq

def Place.text : Place → String
  | arguments => "after arguments"
  | subscript => "after subscript"
  | conditional => "in conditional expression"
  | parenthesis => "after expression"
  | tuple => "after tuple"
  | listItems => "after list elements"
  | statement => "after statement"
  | ifTest => "after if condition"
  | elseWord => "after 'else'"
  | whileTest => "after while condition"
  | forClause => "after for clause"
  | forTarget => "after for target"
  | tryWord => "after 'try'"
  | exceptClause => "after except clause"
  | finallyWord => "after 'finally'"
  | withItems => "after with items"
  | moduleName => "after module name"
  | importedNames => "after imported names"
  | decorator => "after decorator"
  | asyncWord => "after 'async'"
  | functionName => "after function name"
  | parameters => "after parameters"
  | functionBody => "before function body"
  | baseClasses => "after base classes"
  | classBody => "before class body"

/-- A required mark as error messages name it: the layout marks by what they enclose. -/
def requiredText : Token.Mark → String
  | .indent => "an indented block"
  | .dedent => "end of block"
  | m => m.describe

inductive Fault where
  | lexical (f : Token.Fault)
  | missing (what : Token.Mark) (place : Place) (found : Token.Kind)
  | missingName (found : Token.Kind)
  | missingExpression (found : Token.Kind)
  | missingDefinition (found : Token.Kind)
  | missingHandler
  | unexpectedIndent
  | unexpectedDedent
  | keywordArgument
  | cannotAssign
  | cannotDelete
  | augmentedTarget
  | annotatedTarget
  | duplicateParameter (name : String)
  | defaultOrder
  | nestingTooDeep

def Fault.message : Fault → String
  | lexical f => f.message
  | missing what place found =>
    "Expected " ++ requiredText what ++ " " ++ place.text ++ ", found " ++ found.describe
  | missingName found => "Expected identifier, found " ++ found.describe
  | missingExpression found => "Expected expression, found " ++ found.describe
  | missingDefinition found =>
    "Expected function or class definition after decorator, found " ++ found.describe
  | missingHandler => "Expected 'except' or 'finally' block"
  | unexpectedIndent => "Unexpected indent"
  | unexpectedDedent => "Unexpected dedent"
  | keywordArgument => "Keyword arguments are not supported"
  | cannotAssign => "Cannot assign to expression"
  | cannotDelete => "Cannot delete expression"
  | augmentedTarget => "Illegal target for augmented assignment"
  | annotatedTarget => "Illegal target for annotated assignment"
  | duplicateParameter name => "Duplicate argument '" ++ name ++ "' in function definition"
  | defaultOrder => "Non-default argument follows default argument"
  | nestingTooDeep => "Nesting too deep"

structure Error where
  fault : Fault
  pos : Position

def Error.message (e : Error) : String :=
  s!"Parse error at line {e.pos.line}, column {e.pos.column}: {e.fault.message}"

end Footprint.Parser
