/-
Conformance — tests.

A test has a name and a body, which is given the project directory to hand to
the tools.  A call is handled when the server answers it at all, with a result
or with an error.
-/
import Conformance.Client.Program

namespace Conformance

structure TestCase where
  name : String
  body : String → Check Unit

/-- A named list of tests. -/
structure Suite where
  key : String
  title : String
  tests : List TestCase

namespace Suite

/-- The tools that every suite expects the server to offer. -/
def expectedTools : List String := ["scan_dependencies", "decompile_class", "analyze_class"]

/-- Arguments with one project directory. -/
def projectArgument (path : String) : Json := .obj [("projectPath", .str path)]

/-- Arguments with a class and a project directory. -/
def classArguments (name path : String) : Json :=
  .obj [("className", .str name), ("projectPath", .str path)]

/-- Calls a tool and requires an answer. -/
def callHandled (tool : String) (arguments : Json) : Check Wire.Response := do
  let r ← (Check.callTool tool arguments).within (tool ++ " was not handled")
  Check.ensure (r.result.isSome || r.error.isSome) (tool ++ " returned neither result nor error")
  return r

/-- Calls a tool and requires a result. -/
def callWithResult (tool : String) (arguments : Json) : Check Wire.Response := do
  let r ← callHandled tool arguments
  match r.error with
  | some e =>
      Check.fail (.ofText (tool ++ " returned an error instead of a result: " ++ e.display))
  | none => return r

/-- Runs a check for each item, in order. -/
def forEach {α : Type} (xs : List α) (f : α → Check Unit) : Check Unit :=
  match xs with
  | [] => pure ()
  | x :: rest => do
      f x
      forEach rest f

/-- Calls a tool with each of some arguments under a description; all must be
handled. -/
def handleAll (tool : String) (calls : List (String × Json)) : Check Unit :=
  forEach calls fun (description, arguments) => do
    let _ ← (callHandled tool arguments).within description

/-- The first error among outcomes. -/
def firstError : List Outcome → Option ClientError
  | [] => none
  | .error e :: _ => some e
  | .ok _ :: rest => firstError rest

/-- Lists the tools `n` times at once, up to the first error. -/
def listAtOnce (n : Nat) : Check Unit := do
  match firstError (← Check.together .firstError (List.replicate n .listTools)) with
  | some e => Check.fail (.ofError e)
  | none => return ()

/-- The length of time that a check takes. -/
def timed {α : Type} (c : Check α) : Check Duration := do
  let start ← Check.now
  let _ ← c
  return (← Check.now) - start

end Suite

end Conformance
