/-
Conformance — the command of a server.
-/
import Conformance.Text.Quoted

namespace Conformance

/-- What starts a server: a program, its arguments as they are, and the
directory in which it runs. -/
structure ServerCommand where
  program : String
  args : List String := []
  cwd : Option String := none

/-- The command as one line, for a reader. -/
def ServerCommand.text (c : ServerCommand) : String := " ".intercalate (c.program :: c.args)

end Conformance
