/-
Conformance — settings.

What a run needs to know, in five sections with a default for everything but
the server's command.  Settings are valid if a run can start with them; of
several faults the first in the order of `fault` is reported.
-/
import Conformance.Run.Runner
import Conformance.Stdio.Command
import Conformance.Text.Digits

namespace Conformance

structure LogSettings where
  level : String := "info"
  format : String := "compact"
deriving DecidableEq

structure ServerSettings where
  command : String := ""
  args : List String := []
  cwd : Option String := none
  /-- The directory handed to the tests. -/
  projectRoot : Option String := none
deriving DecidableEq

/-- Lengths of time, in seconds but for the one in milliseconds. -/
structure Timeouts where
  requestSecs : Nat := 30
  testSecs : Nat := 120
  settleMillis : Nat := 1000
  graceSecs : Nat := 5
deriving DecidableEq

structure Settings where
  logging : LogSettings := {}
  server : ServerSettings := {}
  client : Wire.ClientInfo := {}
  timeouts : Timeouts := {}
  suites : List String := Suite.keys

namespace Settings

/-! ## Validity -/

def logLevels : List String := ["trace", "debug", "info", "warn", "error"]

def logFormats : List String := ["json", "pretty", "compact"]

/-- Why a run cannot start. -/
inductive Fault where
  | logLevel (level : String)
  | logFormat (format : String)
  | noCommand
  | anonymousClient
  | noRequestTimeout
  | noTestTimeout
  | noGrace
  | noSuites
  | unknownSuite (key : String)
deriving DecidableEq

def Fault.message : Fault → String
  | logLevel level =>
      "Invalid log level: " ++ level ++ ". Must be one of: " ++ ", ".intercalate logLevels
  | logFormat format =>
      "Invalid log format: " ++ format ++ ". Must be one of: " ++ ", ".intercalate logFormats
  | noCommand => "No server command configured (use --command or [server] command)"
  | anonymousClient => "Client name and version must not be empty"
  | noRequestTimeout => "Request timeout must be > 0"
  | noTestTimeout => "Test timeout must be > 0"
  | noGrace => "Shutdown grace period must be > 0"
  | noSuites => "No suites selected"
  | unknownSuite key =>
      "Unknown suite: " ++ key ++ ". Must be one of: " ++ ", ".intercalate Suite.keys

/-- Lower case.  ASCII letters suffice: no name that is looked for holds a
letter that is the lower case of another one. -/
def lower (s : String) : String := s.map Char.toLower

/-- Whether there is a command. -/
def hasCommand (s : Settings) : Bool := !(Text.trim s.server.command).isEmpty

/-- The first suite that is unknown. -/
def unknownSuite? (s : Settings) : Option String := s.suites.find? (!Suite.keys.contains ·)

/-- The first fault. -/
def fault (s : Settings) : Option Fault :=
  if !logLevels.contains (lower s.logging.level) then some (.logLevel s.logging.level)
  else if !logFormats.contains (lower s.logging.format) then some (.logFormat s.logging.format)
  else if !s.hasCommand then some .noCommand
  else if s.client.name.isEmpty || s.client.version.isEmpty then some .anonymousClient
  else if s.timeouts.requestSecs = 0 then some .noRequestTimeout
  else if s.timeouts.testSecs = 0 then some .noTestTimeout
  else if s.timeouts.graceSecs = 0 then some .noGrace
  else if s.suites.isEmpty then some .noSuites
  else s.unknownSuite?.map .unknownSuite

/-! ## The level of the log -/

inductive LogLevel where
  | error
  | warn
  | info
  | debug
  | trace
deriving DecidableEq, Repr

def LogLevel.text : LogLevel → String
  | error => "ERROR"
  | warn => "WARN"
  | info => "INFO"
  | debug => "DEBUG"
  | trace => "TRACE"

def LogLevel.all : List LogLevel := [error, warn, info, debug, trace]

/-- A level by its number, from 1 on, or by its name. -/
def LogLevel.parse? (s : String) : Option LogLevel :=
  match Text.word? s with
  | some 0 => none
  | some (n + 1) => all[n]?
  | none => all.find? fun l => lower l.text == lower s

/-- What is reported for a level that is none. -/
def noLogLevel : String :=
  "Failed to parse log level: error parsing level: expected one of \"error\", \"warn\", \"info\", \"debug\", \"trace\", or a number 1-5"

def logLevel? (s : Settings) : Option LogLevel := LogLevel.parse? s.logging.level

/-! ## What the settings say -/

def serverCommand (s : Settings) : ServerCommand :=
  { program := s.server.command, args := s.server.args, cwd := s.server.cwd }

def clientOptions (s : Settings) : ClientOptions :=
  { info := s.client, requestTimeout := Duration.ofSecs s.timeouts.requestSecs }

def runnerOptions (s : Settings) : RunnerOptions :=
  { testTimeout := Duration.ofSecs s.timeouts.testSecs
    settle := Duration.ofMillis s.timeouts.settleMillis
    grace := Duration.ofSecs s.timeouts.graceSecs }

/-- The directory handed to the tests: the project root, else the directory of
the server, else the working directory. -/
def projectPath (s : Settings) : String :=
  (s.server.projectRoot.or s.server.cwd).getD "."

end Settings

end Conformance
