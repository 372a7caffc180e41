import Footprint.Parser.Stmt
import Footprint.Syntax.Count
import Footprint.Syntax.Registry
import Footprint.Text.Lines

set_option autoImplicit false

/-!
A script together with the text it was read from.
-/

namespace Footprint

structure Program where
  source : String
  script : Script

namespace Program

def ofSource (source : String) : Except Parser.Error Program :=
  match parse source with
  | .ok script => .ok ⟨source, script⟩
  | .error e => .error e

def registry (p : Program) : Registry := .ofScript p.script

def statements (p : Program) : Nat := (Node.script p.script).countStatements

end Program

end Footprint
