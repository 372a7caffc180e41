import Footprint.Position
import Footprint.Syntax.Operator

set_option autoImplicit false

/-!
Syntax trees of scripts. A definition keeps what its header says apart from its body.
-/

namespace Footprint

/-- The identity of a code object: the top level, a function or a class body. -/
abbrev CodeId := Nat

/-- The code object of the script's top level; definitions are numbered from one in the order of
their headers. -/
def topCode : CodeId := 0

inductive Constant where
  | none
  | bool (b : Bool)
  | int (n : Int64)
  | float (x : Float)
  | str (s : String)

inductive Expr where
  | name (id : String) (pos : Position)
  | const (value : Constant) (pos : Position)
  | list (items : List Expr) (pos : Position)
  | tuple (items : List Expr) (pos : Position)
  | binary (op : BinaryOp) (left right : Expr) (pos : Position)
  | unary (op : UnaryOp) (operand : Expr) (pos : Position)
  | logic (op : BoolOp) (operands : List Expr) (pos : Position)
  /-- A chain of comparisons: `left`, then an operator and an operand for each link. -/
  | compare (left : Expr) (links : List (CompareOp × Expr)) (pos : Position)
  | call (callee : Expr) (args : List Expr) (pos : Position)
  | member (object : Expr) (attr : String) (pos : Position)
  | subscript (object index : Expr) (pos : Position)
  | choice (test body orelse : Expr) (pos : Position)

namespace Expr

def pos : Expr → Position
  | name _ p | const _ p | list _ p | tuple _ p | binary _ _ _ p | unary _ _ p | logic _ _ p
  | compare _ _ p | call _ _ p | member _ _ p | subscript _ _ p | choice _ _ _ p => p

mutual

/-- The expression may be assigned to: a name, an attribute, a subscript, or a tuple or list of
such. -/
def isAssignable : Expr → Bool
  | name .. | member .. | subscript .. => true
  | tuple items _ | list items _ => areAssignable items
  | _ => false

def areAssignable : List Expr → Bool
  | [] => true
  | e :: es => e.isAssignable && areAssignable es

end

/-- The expression may be assigned to and is no tuple or list. -/
def isSingleTarget : Expr → Bool
  | name .. | member .. | subscript .. => true
  | _ => false

end Expr

structure Param where
  name : String
  annotation : Option Expr
  default : Option Expr
  pos : Position

/-- The names a function binds or declares; each list is ascending and without repetitions. -/
structure Bound where
  locals : List String
  globals : List String
  nonlocals : List String
  deriving DecidableEq

/-- What a function definition says before its body, with what its body binds. -/
structure FunctionHead where
  name : String
  isAsync : Bool
  params : List Param
  decorators : List Expr
  returns : Option Expr
  code : CodeId
  bound : Bound
  pos : Position
  /-- The last line of the definition. -/
  endLine : Nat

/-- What a class definition says before its body. -/
structure ClassHead where
  name : String
  bases : List Expr
  decorators : List Expr
  code : CodeId
  pos : Position
  endLine : Nat

structure WithItem where
  context : Expr
  target : Option Expr

/-- One name of an import, and the name it is bound to if another is given. -/
structure Import where
  name : String
  asName : Option String
  pos : Position

mutual

inductive Stmt where
  | function (head : FunctionHead) (body : List Stmt)
  | classDef (head : ClassHead) (body : List Stmt)
  | ret (value : Option Expr) (pos : Position)
  | delete (targets : List Expr) (pos : Position)
  | assign (targets : List Expr) (value : Expr) (pos : Position)
  | augment (target : Expr) (op : BinaryOp) (value : Expr) (pos : Position)
  | annotate (target annotation : Expr) (value : Option Expr) (pos : Position)
  | forLoop (target iter : Expr) (body orelse : List Stmt) (pos : Position)
  | whileLoop (test : Expr) (body orelse : List Stmt) (pos : Position)
  | cond (test : Expr) (body orelse : List Stmt) (pos : Position)
  | withBlock (items : List WithItem) (body : List Stmt) (pos : Position)
  | tryBlock (body : List Stmt) (handlers : List Handler) (orelse final : List Stmt)
      (pos : Position)
  | raise (exc : Option Expr) (pos : Position)
  | assert (test : Expr) (message : Option Expr) (pos : Position)
  | importNames (names : List Import) (pos : Position)
  | importFrom (source : String) (names : List Import) (pos : Position)
  | globalDecl (names : List String) (pos : Position)
  | nonlocalDecl (names : List String) (pos : Position)
  | expr (value : Expr) (pos : Position)
  | pass (pos : Position)
  | brk (pos : Position)
  | cont (pos : Position)

/-- An except clause: the class it catches, the name it binds, its body. -/
inductive Handler where
  | clause (kind : Option Expr) (name : Option String) (body : List Stmt) (pos : Position)

end

namespace Handler

def kind : Handler → Option Expr | clause k _ _ _ => k

def name : Handler → Option String | clause _ n _ _ => n

def body : Handler → List Stmt | clause _ _ b _ => b

def pos : Handler → Position | clause _ _ _ p => p

end Handler

namespace Stmt

def pos : Stmt → Position
  | function h _ => h.pos
  | classDef h _ => h.pos
  | ret _ p | delete _ p | assign _ _ p | augment _ _ _ p | annotate _ _ _ p
  | forLoop _ _ _ _ p | whileLoop _ _ _ p | cond _ _ _ p | withBlock _ _ p | tryBlock _ _ _ _ p
  | raise _ p | assert _ _ p | importNames _ p | importFrom _ _ p | globalDecl _ p
  | nonlocalDecl _ p | expr _ p | pass p | brk p | cont p => p

/-- The text of a statement that is a string literal and nothing else. -/
def docstring? : Stmt → Option String
  | expr (.const (.str s) _) _ => some s
  | _ => none

def decorators : Stmt → List Expr
  | function h _ => h.decorators
  | classDef h _ => h.decorators
  | _ => []

/-- The statement only declares how names are resolved, and so never runs. -/
def isDeclaration : Stmt → Bool
  | globalDecl .. | nonlocalDecl .. => true
  | _ => false

end Stmt

structure Script where
  body : List Stmt

/-- A function definition as functions carry it. -/
structure Function where
  head : FunctionHead
  body : List Stmt

/-- The statements that a call runs: the body without a leading docstring. -/
def Function.runBody (f : Function) : List Stmt :=
  match f.body with
  | s :: rest => if s.docstring?.isSome then rest else s :: rest
  | [] => []

end Footprint
