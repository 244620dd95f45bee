/-
Conformance — starting a process.

A program is named by a path, or by a name that is looked up among the
installed ones.  The directory is changed first; a path that does not start at
the root is then taken from there.
-/
import Conformance.Machine.Process
import Conformance.Stdio.Command

namespace Conformance.Machine

/-- Where programs are installed. -/
def programPlace : Place := ["usr", "bin"]

/-- Where the demonstration server is installed. -/
def demoPlace : Place := ["opt", Shell.demoName]

/-- The path of the demonstration server. -/
def demoPath : String := "/" ++ "/".intercalate demoPlace

/-- What every machine has. -/
def installed : List (Place × Node) :=
  [(["tmp"], .directory), (["bin"], .directory), (["usr"], .directory),
    (programPlace, .directory), (["opt"], .directory), (["dev"], .directory),
    (["home"], .directory), (["root"], .directory), (["var"], .directory),
    (["etc"], .directory), (["etc", "passwd"], .file [] false),
    (["dev", "null"], .file [] false), (demoPlace, .file [] true)]
    ++ (Shell.programNames ++ Shell.shellNames).flatMap fun n =>
      [(["bin", n], .file [] true), (programPlace ++ [n], .file [] true)]

/-- A machine with the installed programs and an empty working directory. -/
def fresh : Files := { nodes := installed ++ [(["work"], .directory)], cwd := ["work"] }

/-- Whether a text can be handed to the system. -/
def isClean (s : String) : Bool := !s.toList.contains '\x00'

/-- The name of the program at a path. -/
def programAt (files : Files) (path : String) : Except SystemError String := do
  match files.node? (← files.resolve path) with
  | some (.file _ true) => return Shell.baseName path
  | _ => throw .notPermitted

/-- The name of the program that a command names. -/
def findProgram (files : Files) (program : String) : Except SystemError String :=
  if program.toList.contains '/' then programAt files program
  else if program.isEmpty then .error .notFound
  else if program = "." ∨ program = ".." then .error .notPermitted
  else if Files.nameLimit < program.utf8ByteSize then .error .nameTooLong
  else if (Shell.programNames ++ Shell.shellNames).contains program then .ok program
  else .error .notFound

/-- The files as seen from another directory. -/
def changeDirectory (files : Files) : Option String → Except SystemError Files
  | none => .ok files
  | some path => do
      let cwd ← files.resolve path
      match files.node? cwd with
      | some .directory => return { files with cwd }
      | _ => throw .notDirectory

/-- Starts a command at an instant. -/
def launch (files : Files) (now : Instant) (c : ServerCommand) : Except SystemError Process := do
  if !(c.program :: c.args ++ c.cwd.toList).all isClean then throw .zeroInText
  let files ← changeDirectory files c.cwd
  let name ← findProgram files c.program
  let shell : Shell.State := { files, arguments := [c.program] }
  let p : Process := { shell, clock := now }
  return p.after (shell.callInstead now {} name c.args)

end Conformance.Machine
