import Footprint.Text.GraphemeExtend
import Footprint.Text.Printable

set_option autoImplicit false

/-!
Escaped text: a string in double quotes, shown so that each of its characters can be told.
-/

namespace Footprint.Text

/-- A code point as a lower-case hexadecimal escape in braces. -/
def codePointEscape (c : Char) : List Char :=
  ['\\', 'u', '\x7b'] ++ Nat.toDigits 16 c.toNat ++ ['\x7d']

/-- How one character is shown in escaped text: named escapes first, then characters that are not
shown as themselves or that join the one before them by code point. -/
def escapedChar (c : Char) : List Char :=
  if c = '\x00' then ['\\', '0']
  else if c = '\t' then ['\\', 't']
  else if c = '\r' then ['\\', 'r']
  else if c = '\n' then ['\\', 'n']
  else if c = '"' then ['\\', '"']
  else if c = '\\' then ['\\', '\\']
  else if isGraphemeExtend c || !isPrintable c then codePointEscape c
  else [c]

def escaped (s : String) : String :=
  String.ofList (['"'] ++ s.toList.flatMap escapedChar ++ ['"'])

end Footprint.Text
