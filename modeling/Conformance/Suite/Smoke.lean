/-
Conformance — the smoke suite.

The most basic checks: the server is there, offers the expected tools with
descriptions and schemas, and answers every call.
-/
import Conformance.Suite.Basic

namespace Conformance.Suite.Smoke

def serverConnects (_ : String) : Check Unit := do
  Check.ensure (← Check.isConnected) "server process is not running"
  Check.ensure ((← Check.state) = .ready) "client is not initialized"

def listsTools (_ : String) : Check Unit := do
  let tools ← Check.listTools
  Check.ensure (!tools.isEmpty) "server advertises no tools"
  let names := tools.map Wire.Tool.name
  forEach expectedTools fun expected =>
    Check.ensure (names.contains expected) ("missing tool: " ++ expected)

/-- Whether the content is a list, or missing. -/
def contentIsList (r : Wire.Response) : Bool :=
  match r.resultMember "content" with
  | some c => c.isArray
  | none => true

def scan (project : String) : Check Unit := do
  let r ← callWithResult "scan_dependencies" (projectArgument project)
  Check.ensure (contentIsList r) "result.content is not a sequence"

def scanFormat (project : String) : Check Unit := do
  let r ← callWithResult "scan_dependencies" (projectArgument project)
  let content := r.content
  if !content.isEmpty then
    Check.ensure (content.any fun c => c.text.isSome) "no content entry carries text"

def toolDescriptions (_ : String) : Check Unit := do
  forEach (← Check.listTools) fun t => do
    Check.ensure (!t.name.isEmpty) "tool without a name"
    Check.ensure (!t.description.isEmpty) ("tool " ++ t.name ++ " has an empty description")

def toolSchemas (_ : String) : Check Unit := do
  forEach (← Check.listTools) fun t =>
    Check.ensure t.inputSchema.isObject
      ("tool " ++ t.name ++ " has a non-object inputSchema: " ++ t.inputSchema.print)

/-- One call that must be handled. -/
def handles (tool : String) (arguments : Json) (_ : String) : Check Unit := do
  let _ ← callHandled tool arguments

def suite : Suite :=
  { key := "smoke"
    title := "Smoke Tests"
    tests := [
      { name := "server_connects", body := serverConnects },
      { name := "list_tools", body := listsTools },
      { name := "scan_dependencies_tool", body := scan },
      { name := "scan_dependencies_response_format", body := scanFormat },
      { name := "tool_descriptions", body := toolDescriptions },
      { name := "tool_input_schema", body := toolSchemas },
      { name := "invalid_project_path"
        body := handles "scan_dependencies"
          (projectArgument "/nonexistent/path/that/does/not/exist") },
      { name := "decompile_class_without_scan"
        body := handles "decompile_class" (classArguments "com.example.Test" "/tmp") },
      { name := "analyze_class_without_scan"
        body := handles "analyze_class" (classArguments "com.example.Test" "/tmp") }] }

end Conformance.Suite.Smoke
