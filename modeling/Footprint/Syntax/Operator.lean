set_option autoImplicit false

/-!
The operators of the script language and their spellings.
-/

namespace Footprint

inductive BinaryOp where
  | add | sub | mul | div | floorDiv | mod | pow
  deriving DecidableEq

def BinaryOp.symbol : BinaryOp → String
  | add => "+" | sub => "-" | mul => "*" | div => "/" | floorDiv => "//" | mod => "%" | pow => "**"

inductive UnaryOp where
  | neg | pos | not
  deriving DecidableEq

def UnaryOp.symbol : UnaryOp → String
  | neg => "-" | pos => "+" | not => "not"

inductive BoolOp where
  | and | or
  deriving DecidableEq

def BoolOp.symbol : BoolOp → String
  | and => "and" | or => "or"

inductive CompareOp where
  | eq | notEq | lt | le | gt | ge | isIn | notIn | same | notSame
  deriving DecidableEq

def CompareOp.symbol : CompareOp → String
  | eq => "==" | notEq => "!=" | lt => "<" | le => "<=" | gt => ">" | ge => ">="
  | isIn => "in" | notIn => "not in" | same => "is" | notSame => "is not"

end Footprint
