/-
Conformance — the command line of the program.

Three commands, each a level of its own behind the common options, which may
stand at either level.  Settings given on the command line win over all
others, and a setting that is not given changes nothing.
-/
import Conformance.CommandLine.Grammar
import Conformance.Settings.Basic

namespace Conformance

/-- How to start the server, as far as it is given. -/
structure ServerFlags where
  command : Option String := none
  args : List String := []
  cwd : Option String := none

/-- What a run takes from the command line. -/
structure RunFlags where
  server : ServerFlags := {}
  projectRoot : Option String := none
  suites : List String := []
  smokeOnly : Bool := false
  settleMillis : Option Nat := none
  requestSecs : Option Nat := none
  testSecs : Option Nat := none

inductive Command where
  /-- Runs suites. -/
  | run (flags : RunFlags)
  /-- Opens a session and lists the tools. -/
  | quick (flags : ServerFlags)
  /-- Shows the suites. -/
  | listSuites

structure Invocation where
  verbose : Bool
  /-- The path of the settings file. -/
  config : Option String
  command : Command

namespace CommandLine

/-! ## Levels -/

/-- The options of every level. -/
def commonOptions : List OptionSpec := [
  { long := "verbose", short := some 'v', kind := .flag },
  { long := "config", kind := .value .path false false },
  { long := "help", short := some 'h', kind := .help }]

def serverOptions : List OptionSpec := [
  { long := "command", kind := .value .text false false },
  { long := "arg", kind := .value .text true true },
  { long := "cwd", kind := .value .path false false }]

def topLevel : Level :=
  { options := commonOptions ++ [{ long := "version", short := some 'V', kind := .version }]
    subcommands := ["run", "quick", "list-suites", "help"] }

def runLevel : Level :=
  { options := commonOptions ++ serverOptions ++ [
      { long := "project-root", kind := .value .path false false },
      { long := "suite", kind := .value .text true false },
      { long := "smoke-only", kind := .flag },
      { long := "settle-ms", kind := .value .word false false },
      { long := "request-timeout-secs", kind := .value .word false false },
      { long := "test-timeout-secs", kind := .value .word false false }]
    exclusive := [("smoke-only", "suite")] }

def quickLevel : Level := { options := commonOptions ++ serverOptions }

def listLevel : Level := { options := commonOptions }

/-! ## Reading -/

def serverFlags (f : Found) : ServerFlags :=
  { command := f.value? "command", args := f.values "arg", cwd := f.value? "cwd" }

def runFlags (f : Found) : RunFlags :=
  { server := serverFlags f
    projectRoot := f.value? "project-root"
    suites := f.values "suite"
    smokeOnly := f.has "smoke-only"
    settleMillis := f.word? "settle-ms"
    requestSecs := f.word? "request-timeout-secs"
    testSecs := f.word? "test-timeout-secs" }

/-- The level of a subcommand, and the command that its options make. -/
def subcommand (name : String) : Option (Level × (Found → Command)) :=
  if name = "run" then some (runLevel, fun f => .run (runFlags f))
  else if name = "quick" then some (quickLevel, fun f => .quick (serverFlags f))
  else if name = "list-suites" then some (listLevel, fun _ => .listSuites)
  else none

/-- The answer to a request for help on some commands, each inside the one
before.  Only the program itself has commands. -/
def helpFor : List String → Refusal
  | [] => .help
  | [name] => if topLevel.subcommands.contains name then .help else .invalidSubcommand
  | _ => .invalidSubcommand

/-- The refusal of a command line without a subcommand. -/
def withoutSubcommand (f : Found) : Refusal :=
  if f.isEmpty then .nothingGiven else .missingSubcommand

/-- The options of both levels together. -/
def join (top sub : Found) (command : Command) : Invocation :=
  { verbose := sub.has "verbose" || top.has "verbose"
    config := (sub.value? "config").or (top.value? "config")
    command }

/-- Reads a command line, without the program's name.  The options of the
subcommand are settled before the last one in front of it. -/
def parse (args : List String) : Except Refusal Invocation := do
  let top ← readLevel topLevel args {}
  match top.sub with
  | none => throw (withoutSubcommand (← close topLevel top.reading))
  | some (name, rest) =>
      match subcommand name with
      | none => throw (helpFor rest)
      | some (level, command) =>
          let sub ← close level (← readLevel level rest {}).reading
          return join (← close topLevel top.reading) sub (command sub)

end CommandLine

/-! ## Over the settings -/

/-- A command replaces the arguments, too; arguments alone replace arguments. -/
def ServerFlags.apply (f : ServerFlags) (s : ServerSettings) : ServerSettings :=
  { s with
    command := f.command.getD s.command
    args := if f.command.isSome || !f.args.isEmpty then f.args else s.args
    cwd := f.cwd.or s.cwd }

def RunFlags.apply (f : RunFlags) (s : Settings) : Settings :=
  let server := f.server.apply s.server
  { s with
    server := { server with projectRoot := f.projectRoot.or server.projectRoot }
    suites :=
      if f.smokeOnly then ["smoke"] else if f.suites.isEmpty then s.suites else f.suites
    timeouts := { s.timeouts with
      settleMillis := f.settleMillis.getD s.timeouts.settleMillis
      requestSecs := f.requestSecs.getD s.timeouts.requestSecs
      testSecs := f.testSecs.getD s.timeouts.testSecs } }

end Conformance
