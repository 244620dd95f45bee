/-
Conformance — scripted servers.

A scripted server answers each line by rules.  A rule matches messages by some
of their members and counts its matches; it applies to a window of them.  The
first rule that applies runs its actions, and with none the base answers.  What
the server sends goes into one queue, each item with the instant from which it
can be read.

The server is a transport that never fails by itself: only actions make a write
or a read fail, end the output, or take the server down.
-/
import Conformance.Client.Transport
import Conformance.DemoServer.Server

namespace Conformance.Scripted

/-- The members of a message that a rule looks at. -/
structure Pattern where
  method : Option Json := none
  tool : Option Json := none
  id : Option Json := none
  className : Option Json := none
  path : Option Json := none

/-- One thing to do. -/
inductive Action where
  /-- What follows comes so much later. -/
  | delay (d : Duration)
  /-- Sends a line, with the id put in for `$ID`. -/
  | raw (text : String) (shift : Int)
  | result (v : Json) (shift : Int)
  | error (v : Json) (shift : Int)
  /-- Answers as the base does. -/
  | base
  /-- Ends the output. -/
  | endOutput
  | failRead (e : ClientError)
  | failWrite (e : ClientError)
  /-- The server is gone. -/
  | die
  /-- Writes to the error output. -/
  | stderr (text : String)

structure Rule where
  pattern : Pattern := {}
  /-- Matches to let pass first. -/
  skip : Nat := 0
  /-- Matches to apply to; without a number, all. -/
  times : Option Nat := none
  actions : List Action

/-- Who answers when no rule applies. -/
inductive Base where
  /-- A server that conforms. -/
  | wellBehaved
  | silent
  /-- The demonstration server, without its notifications. -/
  | demo (s : DemoServer.State)

structure State where
  connected : Bool := true
  /-- The lines received, the last one first. -/
  received : List String := []
  /-- The lengths of time given at each stop, the last one first. -/
  stops : List Duration := []
  stderr : List String := []
  queue : List Arrival := []
  rules : List (Rule × Nat) := []
  base : Base := .wellBehaved
  /-- Which paths exist, for the demonstration server. -/
  isThere : String → Bool := fun _ => false

/-! ## Bases -/

def toolDescriptor (name description argument : String) : Json :=
  .obj [("name", .str name), ("description", .str description),
    ("inputSchema", .obj [("type", .str "object"),
      ("properties", .obj [(argument, .obj [("type", .str "string")])])])]

/-- The tools of the server that conforms. -/
def toolDescriptors : Json :=
  .arr [toolDescriptor "scan_dependencies" "Scan project dependencies" "projectPath",
    toolDescriptor "decompile_class" "Decompile a class" "className",
    toolDescriptor "analyze_class" "Analyze a class" "className"]

/-- What the server that conforms says of itself. -/
def openResult : Json :=
  .obj [("protocolVersion", .str Wire.protocolVersion),
    ("capabilities", .obj [("tools", .obj [])]),
    ("serverInfo", .obj [("name", .str "mock-server"), ("version", .str "0.0.1")])]

/-- The answer of the server that conforms to a request: it shows the arguments
of a call. -/
def wellBehavedResponse (id : Nat) (message : Json) : Wire.Response :=
  let method := DemoServer.textMember message "method"
  if method = Wire.openMethod then .ok id openResult
  else if method = Wire.listMethod then .ok id (.obj [("tools", toolDescriptors)])
  else if method = Wire.callMethod then
    let arguments := (message.getD "params").getD "arguments"
    .ok id (.obj [("content", .arr [DemoServer.textItem arguments.print])])
  else .err id (.methodNotFound method)

/-- What the base sends for a message. -/
def State.baseItems (s : State) (message : Json) : State × List (Except ClientError Incoming) :=
  match s.base with
  | .silent => (s, [])
  | .wellBehaved =>
      match (message.get? "id").bind Json.asNat? with
      | none => (s, [])
      | some id => (s, [.ok (.line (wellBehavedResponse id message).toJson.printSorted)])
  | .demo d =>
      let (d, action) := DemoServer.handle s.isThere d message
      ({ s with base := .demo d },
        match action with
        | .reply r => [.ok (.line r.toJson.printSorted)]
        | .garbage => [.ok (.line DemoServer.garbage)]
        | .silent => []
        | .exit => [.ok .endOfStream])

/-! ## Rules -/

/-- Whether a member is as a pattern says; a missing one counts as `null`. -/
def agrees (wanted : Option Json) (actual : Json) : Bool :=
  match wanted with
  | none => true
  | some v => v == actual

def Pattern.holds (p : Pattern) (message : Json) : Bool :=
  let params := message.getD "params"
  let arguments := params.getD "arguments"
  agrees p.method (message.getD "method") && agrees p.tool (params.getD "name")
    && agrees p.id (message.getD "id") && agrees p.className (arguments.getD "className")
    && agrees p.path (arguments.getD "projectPath")

/-- Whether a rule applies to its match number `n`. -/
def Rule.appliesTo (r : Rule) (n : Nat) : Bool :=
  r.skip ≤ n && (match r.times with
    | some t => n < r.skip + t
    | none => true)

/-- The actions of the first rule that applies.  Each rule in front of it that
matched has counted the match. -/
def chooseRule (message : Json) : List (Rule × Nat) → List (Rule × Nat) × Option (List Action)
  | [] => ([], none)
  | (r, n) :: rest =>
      if r.pattern.holds message then
        if r.appliesTo n then ((r, n + 1) :: rest, some r.actions)
        else
          let (rest, found) := chooseRule message rest
          ((r, n + 1) :: rest, found)
      else
        let (rest, found) := chooseRule message rest
        ((r, n) :: rest, found)

/-! ## Actions -/

/-- The id that actions put into what they send. -/
def shiftedId (message : Json) (shift : Int) : Json :=
  match (message.get? "id").bind Json.asNat? with
  | some id => .int (id + shift)
  | none => .null

/-- Puts an id in for each `$ID`. -/
def putId (id : List Char) : List Char → List Char
  | '$' :: 'I' :: 'D' :: rest => id ++ putId id rest
  | c :: rest => c :: putId id rest
  | [] => []

/-- Queues an item. -/
def State.send (s : State) (time : Instant) (item : Except ClientError Incoming) : State :=
  { s with queue := s.queue ++ [{ time, item }] }

/-- The line of a response with a given member. -/
def responseLine (id : Json) (key : String) (v : Json) : String :=
  Json.printSorted (.obj [("jsonrpc", .str Wire.rpcVersion), ("id", id), (key, v)])

/-- Runs actions; what they send can be read from `time` on. -/
def runActions (message : Json) : Instant → List Action → State → State × Except ClientError Unit
  | _, [], s => (s, .ok ())
  | time, a :: rest, s =>
      match a with
      | .delay d => runActions message (time + d) rest s
      | .raw text shift =>
          let line := putId (shiftedId message shift).text text.toList
          runActions message time rest (s.send time (.ok (.line (String.ofList line))))
      | .result v shift =>
          runActions message time rest
            (s.send time (.ok (.line (responseLine (shiftedId message shift) "result" v))))
      | .error v shift =>
          runActions message time rest
            (s.send time (.ok (.line (responseLine (shiftedId message shift) "error" v))))
      | .base =>
          let (s, items) := s.baseItems message
          runActions message time rest (items.foldl (fun s item => s.send time item) s)
      | .endOutput => runActions message time rest (s.send time (.ok .endOfStream))
      | .failRead e => runActions message time rest (s.send time (.error e))
      | .failWrite e => (s, .error e)
      | .die => runActions message time rest { s with connected := false }
      | .stderr text => runActions message time rest { s with stderr := s.stderr ++ [text] }

/-! ## The transport -/

/-- A line arrives at the server. -/
def State.receive (now : Instant) (line : String) (s : State) : State × Except ClientError Unit :=
  if !s.connected then (s, .error (.transportClosed "script transport stopped"))
  else
    let s := { s with received := line :: s.received }
    match Json.parse line with
    | .error e => (s, .error (.serialize e.message))
    | .ok message =>
        match chooseRule message s.rules with
        | (rules, some actions) => runActions message now actions { s with rules }
        | (rules, none) => runActions message now [.base] { s with rules }

/-- What the queue delivers: an item is held up by those in front of it. -/
def held : Instant → List Arrival → List Arrival
  | _, [] => []
  | time, a :: rest =>
      let time := max time a.time
      { a with time } :: held time rest

/-- Takes items; the end of the output takes the server down. -/
def State.take (n : Nat) (s : State) : State :=
  let ended := (s.queue.take n).any fun a =>
    match a.item with
    | .ok .endOfStream => true
    | _ => false
  { s with queue := s.queue.drop n, connected := s.connected && !ended }

def transport : Transport State where
  write now line s := .at now (s.receive now line)
  arrivals _ s := held 0 s.queue
  take _ n s := s.take n
  connected _ s := (s, s.connected)
  stop now grace s :=
    let after := { s with stops := grace :: s.stops, connected := false }
    { ends := now, after, result := .ok (), dropped := after }
  stderr _ s := s.stderr

/-- A server that has run a greeting before the clock started: what that sends
can be read from the start. -/
def State.greet (greeting : List Action) (s : State) : State :=
  let s := (runActions .null 0 greeting s).1
  { s with queue := s.queue.map fun a => { a with time := 0 } }

end Conformance.Scripted
