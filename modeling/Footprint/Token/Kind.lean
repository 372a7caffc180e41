import Footprint.Decimal.Layout
import Footprint.Position
import Footprint.Text.Escaped

set_option autoImplicit false

/-!
The tokens of the script language. Literals and names carry what they stand for; keywords, symbols
and the layout tokens are marks, which are equal or not.
-/

namespace Footprint.Token

inductive Keyword where
  | defKw | asyncKw | classKw | returnKw | ifKw | elifKw | elseKw | whileKw | forKw | inKw
  | breakKw | continueKw | passKw | importKw | fromKw | asKw | globalKw | nonlocalKw | delKw
  | raiseKw | assertKw | tryKw | exceptKw | finallyKw | withKw | andKw | orKw | notKw | isKw
  | trueKw | falseKw | noneKw
  deriving DecidableEq

namespace Keyword

def all : List Keyword :=
  [defKw, asyncKw, classKw, returnKw, ifKw, elifKw, elseKw, whileKw, forKw, inKw, breakKw,
    continueKw, passKw, importKw, fromKw, asKw, globalKw, nonlocalKw, delKw, raiseKw, assertKw,
    tryKw, exceptKw, finallyKw, withKw, andKw, orKw, notKw, isKw, trueKw, falseKw, noneKw]

def text : Keyword → String
  | defKw => "def" | asyncKw => "async" | classKw => "class" | returnKw => "return"
  | ifKw => "if" | elifKw => "elif" | elseKw => "else" | whileKw => "while" | forKw => "for"
  | inKw => "in" | breakKw => "break" | continueKw => "continue" | passKw => "pass"
  | importKw => "import" | fromKw => "from" | asKw => "as" | globalKw => "global"
  | nonlocalKw => "nonlocal" | delKw => "del" | raiseKw => "raise" | assertKw => "assert"
  | tryKw => "try" | exceptKw => "except" | finallyKw => "finally" | withKw => "with"
  | andKw => "and" | orKw => "or" | notKw => "not" | isKw => "is" | trueKw => "True"
  | falseKw => "False" | noneKw => "None"

def ofText? (s : String) : Option Keyword := all.find? (·.text == s)

theorem mem_all (k : Keyword) : k ∈ all := by cases k <;> decide

theorem ofText?_text (k : Keyword) : ofText? k.text = some k := by cases k <;> decide

end Keyword

inductive Symbol where
  | plus | minus | star | slash | doubleSlash | percent | doubleStar
  | assign | plusAssign | minusAssign | starAssign | slashAssign | doubleSlashAssign
  | percentAssign | doubleStarAssign
  | equal | notEqual | less | lessEqual | greater | greaterEqual
  | openParen | closeParen | openBracket | closeBracket
  | comma | colon | dot | arrow | semicolon | atSign
  deriving DecidableEq

def Symbol.text : Symbol → String
  | plus => "+" | minus => "-" | star => "*" | slash => "/" | doubleSlash => "//"
  | percent => "%" | doubleStar => "**"
  | assign => "=" | plusAssign => "+=" | minusAssign => "-=" | starAssign => "*="
  | slashAssign => "/=" | doubleSlashAssign => "//=" | percentAssign => "%="
  | doubleStarAssign => "**="
  | equal => "==" | notEqual => "!=" | less => "<" | lessEqual => "<=" | greater => ">"
  | greaterEqual => ">="
  | openParen => "(" | closeParen => ")" | openBracket => "[" | closeBracket => "]"
  | comma => "," | colon => ":" | dot => "." | arrow => "->" | semicolon => ";" | atSign => "@"

/-- A token that carries nothing. -/
inductive Mark where
  | keyword (k : Keyword)
  | symbol (s : Symbol)
  | newline
  | indent
  | dedent
  | endOfFile
  deriving DecidableEq

namespace Mark

/-- The mark stands for the layout of lines and has no text of its own. -/
def isLayout : Mark → Bool
  | newline | indent | dedent | endOfFile => true
  | _ => false

def describe : Mark → String
  | keyword k => "'" ++ k.text ++ "'"
  | symbol s => "'" ++ s.text ++ "'"
  | newline => "end of line"
  | indent => "indent"
  | dedent => "dedent"
  | endOfFile => "end of file"

end Mark

inductive Kind where
  | int (value : Int64)
  | float (value : Float)
  | str (text : String)
  | name (text : String)
  | mark (m : Mark)

namespace Kind

def isMark (m : Mark) : Kind → Bool
  | mark n => n = m
  | _ => false

def isLayout : Kind → Bool
  | mark m => m.isLayout
  | _ => false

def describe : Kind → String
  | int n => "int literal " ++ toString n.toInt
  | float x => "float literal " ++ Decimal.plainLayout.write x
  | str s => "string literal " ++ Text.escaped s
  | name s => "identifier '" ++ s ++ "'"
  | mark m => m.describe

end Kind

end Footprint.Token

namespace Footprint

structure Token where
  kind : Token.Kind
  pos : Position
  /-- The line on which the scan stood after the token. -/
  endLine : Nat

end Footprint
