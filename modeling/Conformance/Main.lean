/-
Conformance — the entry of the program.

The system is asked for the environment and the settings file.  All else
happens on a machine of the library's own, and what it leaves is printed.
-/
import Conformance.Run.Application

namespace Conformance

/-- The variables of the process that matter.  The system gives all of them as octets, with a zero
behind each entry. -/
def environment : IO Settings.Environment := do
  let block ← IO.FS.readBinFile "/proc/self/environ"
  return .ofProcess (block.toList.splitOn 0)

/-- A machine with the file at a path; without it, if it cannot be read. -/
def machineWith (path : String) : IO Machine.Files := do
  try
    return Machine.fresh.add path (← IO.FS.readBinFile path).toList
  catch _ =>
    return Machine.fresh

end Conformance

open Conformance in
/-- Runs the program. -/
def main (args : List String) : IO UInt32 := do
  let env ← environment
  let files ← match Application.settingsPath? env args with
    | some path => machineWith path
    | none => pure Machine.fresh
  let outcome := Application.execute files env args
  IO.print outcome.printed
  IO.eprint outcome.complaint
  return UInt32.ofNat outcome.exit
