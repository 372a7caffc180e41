set_option autoImplicit false

/-!
Quoted text: a string written as a literal of the script language.
-/

namespace Footprint.Text

/-- The quote around a string: single, unless it holds single quotes and no double ones. -/
def delimiter (cs : List Char) : Char :=
  if cs.contains '\x27' && !cs.contains '"' then '"' else '\x27'

/-- One character inside quotes `q`. -/
def quotedChar (q c : Char) : List Char :=
  if c = '\\' then ['\\', '\\']
  else if c = '\n' then ['\\', 'n']
  else if c = '\t' then ['\\', 't']
  else if c = '\r' then ['\\', 'r']
  else if c = q then ['\\', c]
  else [c]

def quotedChars (cs : List Char) : List Char :=
  let q := delimiter cs
  q :: cs.flatMap (quotedChar q) ++ [q]

def quoted (s : String) : String := String.ofList (quotedChars s.toList)

end Footprint.Text
