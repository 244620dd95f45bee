/-
Conformance — the demonstration server.

A small server shaped like a decompiler.  It remembers one thing: whether a
scan has succeeded.  Before that every look at a class is answered with a tool
error; afterwards the classes it knows can be looked at.  Which paths exist is
not its own knowledge but a parameter.

Flags can make it fail.  Of two flags that name one tool, ending wins over
hanging, and hanging over garbage.
-/
import Conformance.DemoServer.Flags
import Conformance.Wire.Response
import Conformance.Text.Utf8
import Conformance.Text.Blank

namespace Conformance.DemoServer

/-- The classes that a scan finds. -/
def knownClasses : List String :=
  ["com.example.Application", "com.example.service.UserService",
    "com.example.repository.UserRepository"]

/-- What is added to an id that is to be wrong. -/
def wrongIdOffset : Nat := 1000

/-- The line that is no JSON. -/
def garbage : String := "this is not json \x7b"

structure State where
  flags : Flags := {}
  scanned : Bool := false

/-- What a message leads to. -/
inductive Action where
  | reply (r : Wire.Response)
  | garbage
  | silent
  | exit

/-! ## Documents -/

def textItem (text : String) : Json := .obj [("type", .str "text"), ("text", .str text)]

/-- The result of a tool that did its work. -/
def textResult (text : String) : Json := .obj [("content", .arr [textItem text])]

/-- The result of a tool that failed. -/
def toolError (text : String) : Json :=
  .obj [("content", .arr [textItem text]), ("isError", .bool true)]

def stringSchema (description : String) : Json :=
  .obj [("type", .str "string"), ("description", .str description)]

def objectSchema (properties : List (String × Json)) (required : List String) : Json :=
  .obj [("type", .str "object"), ("properties", .obj properties),
    ("required", .arr (required.map .str))]

def classSchema : Json :=
  objectSchema [("className", stringSchema "Fully qualified class name"),
    ("projectPath", stringSchema "Project root")] ["className"]

/-- The tools that the server offers. -/
def tools : List Wire.Tool := [
  { name := "scan_dependencies"
    description := "Scan a project's dependency jars and index their classes"
    inputSchema := objectSchema [("projectPath", stringSchema "Project root")] ["projectPath"] },
  { name := "decompile_class"
    description := "Decompile an indexed class to Java source"
    inputSchema := classSchema },
  { name := "analyze_class"
    description := "Summarize the members of an indexed class"
    inputSchema := classSchema }]

/-- What the server says of itself when a session is opened. -/
def openResult : Json :=
  .obj [("protocolVersion", .str Wire.protocolVersion),
    ("capabilities", .obj [("tools", .obj [])]),
    ("serverInfo", .obj [("name", .str "mock-mcp-server"), ("version", .str "0.1.0")])]

/-! ## Tools -/

/-- The package and the simple name of a class. -/
def splitClass (name : String) : String × String :=
  let cs := name.toList
  let simple := (cs.reverse.takeWhile (· ≠ '.')).reverse
  let package := cs.take (cs.length - simple.length - 1)
  (String.ofList package, String.ofList simple)

/-- What is shown of a known class. -/
def classText (tool name : String) : String :=
  if tool = "decompile_class" then
    let (package, simple) := splitClass name
    "package " ++ package ++ ";\n\npublic class " ++ simple ++ " \x7b\n\x7d\n"
  else name ++ ": 0 fields, 1 constructor, 0 methods"

/-- A look at a class. -/
def lookAt (s : State) (id : Nat) (tool : String) (arguments : Json) : Wire.Response :=
  match (arguments.get? "className").bind Json.asString? with
  | none => .err id (.invalidParams "className must be a string")
  | some name =>
      if !s.scanned then
        .ok id (toolError "No scan has run yet; call scan_dependencies first")
      else if !knownClasses.contains name then .ok id (toolError ("Class not found: " ++ name))
      else .ok id (textResult (classText tool name))

/-- A scan of a path. -/
def scan (isThere : String → Bool) (s : State) (id : Nat) (arguments : Json) :
    State × Wire.Response :=
  match (arguments.get? "projectPath").bind Json.asString? with
  | none => (s, .err id (.invalidParams "projectPath must be a string"))
  | some path =>
      if path.isEmpty || !isThere path then
        (s, .ok id (toolError ("Project path not found: " ++ Text.quoted path)))
      else
        ({ s with scanned := true },
          .ok id (textResult
            ("Scanned " ++ path ++ ": indexed " ++ toString knownClasses.length ++ " classes")))

/-- A call of a tool. -/
def callTool (isThere : String → Bool) (s : State) (id : Nat) (tool : String)
    (arguments : Json) : State × Wire.Response :=
  if tool = "scan_dependencies" then scan isThere s id arguments
  else if tool = "decompile_class" ∨ tool = "analyze_class" then
    (s, lookAt s id tool arguments)
  else (s, .err id (.invalidParams ("Unknown tool: " ++ tool)))

/-! ## Messages -/

/-- The text of a member that should be one. -/
def textMember (j : Json) (key : String) : String := ((j.getD key).asString?).getD ""

/-- A call of a tool, unless a flag intercepts it. -/
def handleCall (isThere : String → Bool) (s : State) (id : Nat) (params : Json) :
    State × Action :=
  let tool := textMember params "name"
  if s.flags.exitOn = some tool then (s, .exit)
  else if s.flags.hangOn = some tool then (s, .silent)
  else if s.flags.garbageOn = some tool then (s, .garbage)
  else
    let (s, r) := callTool isThere s id tool (params.getD "arguments")
    (s, .reply r)

/-- What a request leads to. -/
def handleRequest (isThere : String → Bool) (s : State) (id : Nat) (method : String)
    (params : Json) : State × Action :=
  if method = Wire.openMethod then
    if s.flags.handshakeError then
      (s, .reply (.err id (.internalError "initialization refused")))
    else (s, .reply (.ok id openResult))
  else if method = Wire.listMethod then
    let id := if s.flags.wrongId then (id + wrongIdOffset) % Word.bound else id
    (s, .reply (.ok id (.obj [("tools", Wire.toolsJson tools)])))
  else if method = Wire.callMethod then handleCall isThere s id params
  else (s, .reply (.err id (.methodNotFound method)))

/-- What a message leads to; one without an id that is a natural is no request. -/
def handle (isThere : String → Bool) (s : State) (message : Json) : State × Action :=
  match (message.get? "id").bind Json.asNat? with
  | none => (s, .silent)
  | some id =>
      handleRequest isThere s id (textMember message "method") (message.getD "params")

/-! ## Lines -/

/-- The notification before a response. -/
def noteLine (message : Json) : String :=
  Json.printSorted (.obj [("jsonrpc", .str Wire.rpcVersion),
    ("method", .str "notifications/message"),
    ("params", .obj [("level", .str "info"),
      ("data", .str ("handling " ++ (message.getD "method").print))])])

/-- The answer to a line that is no JSON. -/
def parseErrorLine (e : Json.ParseError) : String :=
  Json.printSorted (.obj [("jsonrpc", .str Wire.rpcVersion), ("id", .null),
    ("error", (Wire.RpcError.parseError e.message).toJson)])

/-- The lines that answer a message; `none` when the server ends instead. -/
def answer (isThere : String → Bool) (s : State) (message : Json) :
    State × Option (List String) :=
  match handle isThere s message with
  | (s, .reply r) =>
      let note := if s.flags.notify then [noteLine message] else []
      (s, some (note ++ [r.toJson.printSorted]))
  | (s, .garbage) => (s, some [garbage])
  | (s, .silent) => (s, some [])
  | (s, .exit) => (s, none)

/-- The lines that answer a line. -/
def answerLine (isThere : String → Bool) (s : State) (line : String) :
    State × Option (List String) :=
  let line := Text.trim line
  if line.isEmpty then (s, some [])
  else
    match Json.parse line with
    | .error e => (s, some [parseErrorLine e])
    | .ok message => answer isThere s message

/-! ## Sessions -/

/-- The exit status after a request to end. -/
def exitStatus : Nat := 3

/-- The exit status after a line that is no text. -/
def badInputStatus : Nat := 1

/-- What the server writes for lines of input, and its exit status.  A line
that is no text is `none`. -/
def session (isThere : String → Bool) : State → List (Option String) → List String × Nat
  | _, [] => ([], 0)
  | _, none :: _ => ([], badInputStatus)
  | s, some line :: rest =>
      match answerLine isThere s line with
      | (_, none) => ([], exitStatus)
      | (s, some out) =>
          let (more, status) := session isThere s rest
          (out ++ more, status)

end Conformance.DemoServer
