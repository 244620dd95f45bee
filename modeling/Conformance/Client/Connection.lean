/-
Conformance — the connection to a server.

One operation at a time holds the connection.  What it does is a sequence of
phases; each asks the transport for one thing, and its outcome leads to the
next phase or ends the operation.  An operation that is dropped in a phase
leaves the connection as it is.

An id is given to every request, in ascending order.  The id in flight is the
one whose response has not been read; when the next request starts while one
is in flight, that one has been given up, and answers up to it are late.
-/
import Conformance.Client.Arrival

namespace Conformance

/-- What to do when the connection is held by another operation. -/
inductive Policy where
  /-- Wait in line. -/
  | queue
  /-- Fail at once. -/
  | reject
deriving DecidableEq, Repr

def Policy.text : Policy → String
  | queue => "Queue"
  | reject => "Reject"

structure ClientOptions where
  info : Wire.ClientInfo := {}
  requestTimeout : Duration := Duration.ofSecs 30
  policy : Policy := .queue

inductive ClientState where
  | created
  | opening
  | ready
  | disconnected
deriving DecidableEq, Repr

def ClientState.text : ClientState → String
  | created => "Created"
  | opening => "Initializing"
  | ready => "Ready"
  | disconnected => "Disconnected"

/-- What is known about a connection, its transport apart. -/
structure Connection where
  /-- The id given last; 0 before the first. -/
  lastId : Nat := 0
  state : ClientState := .created
  /-- The id that was written and whose response has not been read. -/
  inFlight : Option Nat := none
  /-- The highest id that was given up. -/
  abandoned : Option Nat := none
  /-- What the server said of itself when the session was opened. -/
  server : Option Wire.OpenResult := none

/-- What can be asked about a connection. -/
inductive Query where
  | state
  | connected
  | server
  | stderr
  | lastId
deriving DecidableEq

/-- What can be done with a connection. -/
inductive Operation where
  /-- Opens the session. -/
  | connect
  | request (method : String) (params : Option Json)
  /-- A request whose parameters cannot be written as text. -/
  | unprintable (cause : String)
  /-- Asks for the tools. -/
  | listTools
  | notify (n : Wire.Notification)
  /-- Stops the server, with a length of time to do so by itself. -/
  | shutdown (grace : Duration)
  | ask (q : Query)

/-- Whether an operation follows the policy; the others always wait in line. -/
def Operation.heedsPolicy : Operation → Bool
  | connect | request _ _ | unprintable _ | listTools | notify _ => true
  | shutdown _ | ask _ => false

/-- What an operation gives. -/
inductive Reply where
  | done
  | response (r : Wire.Response)
  | tools (ts : List Wire.Tool)
  | state (s : ClientState)
  | connected (b : Bool)
  | server (s : Option Wire.ServerInfo)
  | stderr (lines : List String)
  | lastId (n : Nat)

abbrev Outcome := Except ClientError Reply

/-- What a request is made for. -/
inductive Purpose where
  /-- Opening the session. -/
  | opening
  /-- The response itself. -/
  | answer
  /-- The tools that the response names. -/
  | listing
deriving DecidableEq

/-- Why a line is written. -/
inductive Writing where
  /-- It is the request `id`. -/
  | request (purpose : Purpose) (id : Nat)
  /-- It tells the server that the session is open. -/
  | announcement (info : Wire.OpenResult)
  | notification

/-- What an operation asks of the transport. -/
inductive Phase where
  | write (why : Writing) (line : String)
  /-- The response to request `id` is to be read. -/
  | await (purpose : Purpose) (id : Nat)
  | stop (grace : Duration)
  | ask (q : Query)

inductive Progress where
  | next (p : Phase)
  | ended (o : Outcome)

/-- The tools that a response to a listing names.  No `tools`, or `null`, is an
empty list. -/
def toolsOf (r : Wire.Response) : Except ClientError (List Wire.Tool) :=
  match r.outcome with
  | .error e => .error (.rpc e)
  | .ok result =>
      match result.get? "tools" with
      | none | some .null => .ok []
      | some tools =>
          match Wire.sequence Wire.Tool.decode tools with
          | .ok ts => .ok ts
          | .error e => .error (.malformed ("invalid tools list: " ++ e.message) tools.print)

namespace Connection

/-- Why a tool operation cannot start. -/
def refusal (c : Connection) : Option ClientError :=
  match c.state with
  | .ready => none
  | .disconnected => some (.transportClosed "client is disconnected")
  | .created | .opening => some .notOpen

/-- A fatal error ends the connection. -/
def note (c : Connection) (e : ClientError) : Connection :=
  if e.isFatal then { c with state := .disconnected } else c

/-- The next request: it takes the next id, and gives up the one in flight. -/
def start (c : Connection) (purpose : Purpose) (method : String) (params : Option Json) :
    Connection × Progress :=
  let id := c.lastId + 1
  let request : Wire.Request := { id, method, params }
  ({ c with lastId := id, inFlight := some id, abandoned := c.inFlight.or c.abandoned },
    .next (.write (.request purpose id) request.toJson.print))

/-- The next request, which cannot be written: its id is spent all the same. -/
def spend (c : Connection) : Connection :=
  { c with lastId := c.lastId + 1, inFlight := none, abandoned := c.inFlight.or c.abandoned }

/-- The start of an operation. -/
def begin (o : ClientOptions) (c : Connection) : Operation → Connection × Progress
  | .connect =>
      match c.state with
      | .ready => (c, .ended (.ok .done))
      | .disconnected =>
          (c, .ended (.error (.handshake (.transportClosed "client is disconnected"))))
      | .created | .opening =>
          { c with state := .opening }.start .opening Wire.openMethod
            (some (Wire.OpenParams.of o.info).toJson)
  | .request method params =>
      match c.refusal with
      | some e => (c, .ended (.error e))
      | none => c.start .answer method params
  | .unprintable cause =>
      match c.refusal with
      | some e => (c, .ended (.error e))
      | none => (c.spend, .ended (.error (.serialize cause)))
  | .listTools =>
      match c.refusal with
      | some e => (c, .ended (.error e))
      | none => c.start .listing Wire.listMethod (some (.obj []))
  | .notify n =>
      match c.refusal with
      | some e => (c, .ended (.error e))
      | none => (c, .next (.write .notification n.toJson.print))
  | .shutdown grace => ({ c with state := .disconnected }, .next (.stop grace))
  | .ask q => (c, .next (.ask q))

/-- An exchange fails; the session that it should open stays closed. -/
def fail (c : Connection) (purpose : Purpose) (e : ClientError) : Connection × Progress :=
  let c := c.note e
  match purpose with
  | .answer | .listing => (c, .ended (.error e))
  | .opening =>
      ({ c with state := if c.state = .disconnected then .disconnected else .created },
        .ended (.error (.handshake e)))

/-- The outcome of writing a line. -/
def written (c : Connection) (why : Writing) (r : Except ClientError Unit) :
    Connection × Progress :=
  match why, r with
  | .request purpose id, .ok _ => (c, .next (.await purpose id))
  | .request purpose _, .error e => { c with inFlight := none }.fail purpose e
  | .announcement info, .ok _ =>
      ({ c with state := .ready, server := some info }, .ended (.ok .done))
  | .announcement _, .error e => c.fail .opening e
  | .notification, .ok _ => (c, .ended (.ok .done))
  | .notification, .error e => (c.note e, .ended (.error e))

/-- The outcome of stopping the server. -/
def stopped (c : Connection) (r : Except ClientError Unit) : Connection × Progress :=
  (c, .ended (r.map fun _ => .done))

/-- What the response to the opening request leads to. -/
def opened (c : Connection) (r : Wire.Response) : Connection × Progress :=
  match r.error with
  | some e => c.fail .opening (.rpc e)
  | none =>
      let result := r.result.getD .null
      match Wire.OpenResult.decode result with
      | .ok info => (c, .next (.write (.announcement info) Wire.Notification.opened.toJson.print))
      | .error e =>
          c.fail .opening
            (.malformed ("invalid initialize result: " ++ e.message) result.print)

/-- The end of the wait for a response. -/
def settled (c : Connection) (purpose : Purpose) : Verdict → Connection × Progress
  | .answer r =>
      let c := { c with inFlight := none }
      match purpose with
      | .answer => (c, .ended (.ok (.response r)))
      | .listing => (c, .ended ((toolsOf r).map .tools))
      | .opening => c.opened r
  | .misshapen e => { c with inFlight := none }.fail purpose e
  | .refuse e => c.fail purpose e

end Connection

/-- Calls a tool. -/
def Operation.callTool (name : String) (arguments : Json) : Operation :=
  .request Wire.callMethod (some (Wire.ToolCall.toJson { name, arguments }))

end Conformance
