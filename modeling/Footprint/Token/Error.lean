import Footprint.Position

set_option autoImplicit false

/-!
What can be wrong with a text before it is parsed.
-/

namespace Footprint.Token

inductive Fault where
  | endInsideBrackets
  | unalignedUnindent
  | unexpected (c : Char)
  | unmatched (c : Char)
  | unterminatedString
  | endInsideString
  | integerOutOfRange (digits : String)
  deriving DecidableEq

def Fault.message : Fault → String
  | endInsideBrackets => "Unexpected end of file inside brackets"
  | unalignedUnindent => "Unindent does not match any outer indentation level"
  | unexpected c => "Unexpected character: '" ++ c.toString ++ "'"
  | unmatched c => "Unmatched '" ++ c.toString ++ "'"
  | unterminatedString => "Unterminated string literal"
  | endInsideString => "Unexpected end of file in string literal"
  | integerOutOfRange digits => "Integer literal out of range: " ++ digits

structure Error where
  fault : Fault
  pos : Position
  deriving DecidableEq

def Error.message (e : Error) : String :=
  s!"Lexer error at line {e.pos.line}, column {e.pos.column}: {e.fault.message}"

end Footprint.Token
