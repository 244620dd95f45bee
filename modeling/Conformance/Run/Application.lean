/-
Conformance — the program.

From a command line, the environment and the files of a machine to what is
printed and the exit status: 0 if all is well, 1 if something failed, 2 if the
command line is refused, 101 if the program broke down.
-/
import Conformance.CommandLine.Invocation
import Conformance.Machine.Server
import Conformance.Run.Runner
import Conformance.Settings.Load

namespace Conformance.Application

/-- What a run of the program leaves. -/
structure Outcome where
  exit : Nat
  printed : String := ""
  complaint : String := ""

def succeeded (printed : String) : Outcome := { exit := 0, printed }

def failed (printed : String) : Outcome := { exit := 1, printed }

/-- A failure that is reported as an error. -/
def errored (message : String) : Outcome :=
  { exit := 1, complaint := "Error: " ++ message ++ "\n" }

/-- A breakdown. -/
def broken (printed message : String) : Outcome :=
  { exit := 101, printed, complaint := message ++ "\n" }

def versionText : String := "mcp-harness 0.1.0\n"

/-- How the start of a server with a session turned out. -/
abbrev Opened (σ : Type) := Program.End (Except ClientError (Session σ))

/-- Starts a server and opens a session with it.  What becomes of a server with
which none can be opened shows nowhere. -/
def spawn (files : Machine.Files) (o : ClientOptions) (c : ServerCommand) :
    Opened Machine.Server :=
  match Machine.Server.start files 0 c with
  | .error e => .done (.error e)
  | .ok server =>
      match Runner.connect Machine.Server.transport o { wire := server } with
      | (s, .done (.ok _)) => .done (.ok s)
      | (_, .done (.error e)) => .done (.error e)
      | (_, .crashed m) => .crashed m
      | (_, .dropped) => .dropped

/-! ## A run -/

/-- Runs suites in order, up to one that loses the server. -/
def runSuites {σ : Type} (p : RunPlan σ) : List Suite → Runner σ → Runner σ × Option RunError
  | [], r => (r, none)
  | suite :: rest, r =>
      match Runner.runSuite p suite.title suite.tests r with
      | (r, .ok _) => runSuites p rest r
      | (r, .error e) => (r, some e)

/-- The last lines of the server's error output, as they are shown. -/
def stderrText : RunError → String
  | .connectionLost _ _ (line :: lines) =>
      "\nServer stderr (last " ++ toString (lines.length + 1) ++ " lines):\n"
        ++ String.join ((line :: lines).map fun l => "  " ++ l ++ "\n")
  | _ => ""

/-- What a run leaves when its suites are done. -/
def conclude (printed : String) (results : List SuiteResult) (aborted : Option RunError) :
    Outcome :=
  match Summary.of? results with
  | none => broken printed Summary.overflowText
  | some summary =>
      let printed := printed ++ summary.render
      match aborted with
      | some e => failed (printed ++ stderrText e ++ "\n✗ Run aborted: " ++ e.message ++ "\n")
      | none => { exit := summary.exitCode, printed }

/-- Runs suites, by their keys, in an open session, and stops the server. -/
def conduct {σ : Type} (p : RunPlan σ) (keys : List String) (s : Session σ) : Outcome :=
  let r : Runner σ := { session := { s with now := s.now + p.runner.settle } }
  let (r, aborted) := runSuites p (keys.filterMap Suite.find?) r
  conclude r.printed (Runner.finish p r).results aborted

/-- Runs the suites that settings name; `start` starts a server. -/
def run {σ : Type} (T : Transport σ) (start : ClientOptions → ServerCommand → Opened σ)
    (settings : Settings) : Outcome :=
  match settings.fault with
  | some fault => errored (chainText ["Invalid configuration", fault.message])
  | none =>
      match start settings.clientOptions settings.serverCommand with
      | .crashed m => broken "" m
      | .dropped => broken "" ""
      | .done (.error e) =>
          let e := RunError.setup e
          failed ("✗ Setup failed: " ++ chainText (e.message :: e.sources) ++ "\n")
      | .done (.ok session) =>
          conduct
            { transport := T
              client := settings.clientOptions
              runner := settings.runnerOptions
              project := settings.projectPath }
            settings.suites session

/-! ## A quick look -/

/-- The most that a response may take. -/
def quickTimeout : Duration := Duration.ofSecs 5

/-- What is shown of the tools. -/
def listingText : Except ClientError (List Wire.Tool) → String
  | .ok tools =>
      "[PASS] Listed " ++ toString tools.length ++ " tools\n"
        ++ String.join (tools.map fun t => "  - " ++ t.name ++ "\n")
  | .error e => "[FAIL] Could not list tools: " ++ e.message ++ "\n"

/-- The name and the version that a server gives of itself. -/
def serverText {σ : Type} (s : Session σ) : String :=
  match s.conn.server.bind Wire.OpenResult.serverInfo with
  | some info => info.name ++ " " ++ info.version
  | none => " "

/-- Asks for the tools. -/
def listTools {σ : Type} (T : Transport σ) (o : ClientOptions) (s : Session σ) :
    Except ClientError (List Wire.Tool) :=
  match gather T o .all none [{ work := .use .listTools }] s with
  | (_, some [.returned (.ok (.tools ts))]) => .ok ts
  | (_, some [.returned (.error e)]) => .error e
  | _ => .ok []

/-- Opens a session and lists the tools.  How the server ends afterwards shows
nowhere. -/
def quick {σ : Type} (T : Transport σ) (start : ClientOptions → ServerCommand → Opened σ)
    (settings : Settings) : Outcome :=
  if !settings.hasCommand then errored Settings.Fault.noCommand.message
  else
    let command := settings.serverCommand
    let o := { settings.clientOptions with requestTimeout := quickTimeout }
    let opening := "Starting MCP server: " ++ command.text ++ "\n"
    match start o command with
    | .crashed m => broken opening m
    | .dropped => broken opening ""
    | .done (.error e) => failed (opening ++ "[FAIL] " ++ e.message ++ "\n")
    | .done (.ok session) =>
        let opened := opening ++ "[PASS] Server initialized successfully\n  Server info: "
          ++ serverText session ++ "\n"
        let tools := listTools T o session
        { exit := if tools.isOk then 0 else 1, printed := opened ++ listingText tools }

/-! ## The whole -/

/-- Carries out a command on a machine. -/
def carryOut (files : Machine.Files) (settings : Settings) : Command → Outcome
  | .run flags => run Machine.Server.transport (spawn files) (flags.apply settings)
  | .quick flags =>
      quick Machine.Server.transport (spawn files)
        { settings with server := flags.apply settings.server }
  | .listSuites => succeeded Suite.listing

/-- What a command line leaves that is refused, or that asks for a text. -/
def refused : CommandLine.Refusal → Outcome
  | .version => succeeded versionText
  | r => { exit := r.exitCode }

/-- The path of the settings file, as the arguments and the environment give it. -/
def settingsPath? (env : Settings.Environment) (args : List String) : Option String :=
  match CommandLine.parse args with
  | .error _ => none
  | .ok invocation => Settings.path? env invocation.config

/-- A run of the program with arguments, the program's name apart. -/
def execute (files : Machine.Files) (env : Settings.Environment) (args : List String) : Outcome :=
  match CommandLine.parse args with
  | .error r => refused r
  | .ok invocation =>
      match Settings.load files env invocation.config with
      | .error e => errored e.message
      | .ok settings => carryOut files settings invocation.command

end Conformance.Application
