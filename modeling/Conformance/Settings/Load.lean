/-
Conformance — where settings come from.

Three layers, each over the one before: a file, the environment, the command
line.  A layer changes only what it names.  The file is named on the command
line or in the environment; one that is not there counts as empty.
-/
import Conformance.Settings.Decode
import Conformance.Machine.Files

namespace Conformance.Settings

/-- The variables of the environment. -/
abbrev Environment := List (String × String)

/-! ## Variables -/

/-- Names the file. -/
def fileVariable : String := "MCP_HARNESS_CONFIG"

def levelVariable : String := "MCP_HARNESS_LOG_LEVEL"

def formatVariable : String := "MCP_HARNESS_LOG_FORMAT"

def commandVariable : String := "MCP_HARNESS_SERVER_COMMAND"

def requestVariable : String := "MCP_HARNESS_REQUEST_TIMEOUT_SECS"

def testVariable : String := "MCP_HARNESS_TEST_TIMEOUT_SECS"

/-- All variables that matter. -/
def variableNames : List String :=
  [fileVariable, levelVariable, formatVariable, commandVariable, requestVariable, testVariable]

/-! ## The environment -/

def equalSign : UInt8 := 61

/-- The octets of a variable, from the entries `name=value` of a process: what the first entry with
the name has behind the equal sign. -/
def octetsOf? (entries : List (List UInt8)) (name : String) : Option (List UInt8) :=
  entries.findSome? fun e => (Utf8.encode name ++ [equalSign]).isPrefixOf? e

/-- The variables of a process.  One that is no text counts as not set: no setting is taken from
it, and no file of a machine has such a path. -/
def Environment.ofProcess (entries : List (List UInt8)) : Environment :=
  variableNames.filterMap fun name =>
    ((octetsOf? entries name).bind Utf8.decode?).map (name, ·)

/-- A length of time in the environment: a number that is not zero. -/
def positive? (env : Environment) (name : String) : Option Nat :=
  ((env.lookup name).bind Text.word?).filter (0 < ·)

/-- Puts the environment over settings. -/
def underEnvironment (env : Environment) (s : Settings) : Settings :=
  { s with
    logging := {
      level := (env.lookup levelVariable).getD s.logging.level
      format := (env.lookup formatVariable).getD s.logging.format }
    server := { s.server with command := (env.lookup commandVariable).getD s.server.command }
    timeouts := { s.timeouts with
      requestSecs := (positive? env requestVariable).getD s.timeouts.requestSecs
      testSecs := (positive? env testVariable).getD s.timeouts.testSecs } }

/-! ## The file -/

/-- Why the file cannot be used. -/
inductive FileError where
  | unreadable (path : String) (cause : Machine.SystemError)
  | malformed (path : String)

/-- A path in quotes; an apostrophe is escaped, too. -/
def quotedPath (path : String) : String :=
  String.ofList ('"' :: path.toList.flatMap
    (fun c => if c = '\'' then ['\\', '\''] else Text.quotedChar c) ++ ['"'])

def FileError.message : FileError → String
  | unreadable path cause =>
      "Failed to read config file from " ++ quotedPath path ++ ": " ++ cause.message
  | malformed path => "Failed to parse config file from " ++ quotedPath path

/-- The settings in a file. -/
def ofFile (files : Machine.Files) (path : String) : Except FileError Settings :=
  if !files.isThere path then .ok {}
  else
    match files.readText path with
    | .error cause => .error (.unreadable path cause)
    | .ok text =>
        match ofText? text with
        | none => .error (.malformed path)
        | some s => .ok s

/-- The path of the file: the one given, else the one in the environment. -/
def path? (env : Environment) (given : Option String) : Option String :=
  given.or (env.lookup fileVariable)

/-- The settings of the file and the environment. -/
def load (files : Machine.Files) (env : Environment) (given : Option String) :
    Except FileError Settings := do
  let s ← match path? env given with
    | some path => ofFile files path
    | none => .ok {}
  return s.underEnvironment env

end Conformance.Settings
