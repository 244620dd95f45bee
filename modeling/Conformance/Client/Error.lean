/-
Conformance — what can go wrong between a client and its server.

A closed set of causes.  A fatal error leaves the connection unusable and ends
a run; any other fails only the operation that met it.  A failure of a test is
such an error or a broken expectation, under the descriptions that were put in
front of it on the way up.
-/
import Conformance.Wire.Response
import Conformance.Duration

namespace Conformance

inductive ClientError where
  /-- The server's program could not be started. -/
  | processSpawn (command cause : String)
  /-- The server has gone, or its input is closed. -/
  | transportClosed (reason : String)
  /-- The server's output ended while a response was awaited. -/
  | endOfStream
  /-- No response before the deadline. -/
  | readTimeout (limit : Duration)
  /-- A line that is no response. -/
  | malformed (reason raw : String)
  /-- The session could not be opened. -/
  | handshake (inner : ClientError)
  /-- The server answered with an error. -/
  | rpc (error : Wire.RpcError)
  /-- A tool operation before the session was open. -/
  | notOpen
  /-- Another operation holds the connection. -/
  | busy
  /-- A response to another request. -/
  | idMismatch (expected actual : Nat)
  /-- A message that could not be written as text. -/
  | serialize (cause : String)
  /-- A failure of a pipe. -/
  | io (cause : String)

namespace ClientError

/-- Whether the connection is unusable afterwards. -/
def isFatal : ClientError → Bool
  | processSpawn _ _ | transportClosed _ | endOfStream | handshake _ | io _ => true
  | readTimeout _ | malformed _ _ | rpc _ | notOpen | busy | idMismatch _ _ | serialize _ => false

/-- The name of the cause in reports. -/
def kind : ClientError → String
  | processSpawn _ _ => "process_spawn"
  | transportClosed _ => "transport_closed"
  | endOfStream => "end_of_stream"
  | readTimeout _ => "read_timeout"
  | malformed _ _ => "malformed_response"
  | handshake _ => "handshake"
  | rpc _ => "rpc"
  | notOpen => "not_initialized"
  | busy => "concurrent_request"
  | idMismatch _ _ => "id_mismatch"
  | serialize _ => "serialize"
  | io _ => "io"

def message : ClientError → String
  | processSpawn command cause => "failed to spawn MCP server '" ++ command ++ "': " ++ cause
  | transportClosed reason => "transport closed: " ++ reason
  | endOfStream => "MCP server closed its output stream (EOF)"
  | readTimeout limit => "no response from MCP server within " ++ Duration.text limit
  | malformed reason raw => "malformed response (" ++ reason ++ "): " ++ raw
  | handshake inner => "handshake failed: " ++ inner.message
  | rpc e => "RPC error: " ++ e.display
  | notOpen => "client not initialized; complete the handshake first"
  | busy => "another request is already in flight on this connection"
  | idMismatch expected actual =>
      "response id " ++ toString actual ++ " does not match request id " ++ toString expected
  | serialize cause => "failed to serialize message: " ++ cause
  | io cause => "I/O error on MCP server pipe: " ++ cause

/-- The messages of the errors underneath, from the nearest down. -/
def sources : ClientError → List String
  | processSpawn _ cause => [cause]
  | handshake inner => inner.message :: inner.sources
  | serialize cause => [cause]
  | io cause => [cause]
  | _ => []

end ClientError

/-- Why a run ended before its suites did. -/
inductive RunError where
  /-- The server could not be started, or the session not opened. -/
  | setup (cause : ClientError)
  /-- The server went away; `stderr` holds the last lines it wrote there. -/
  | connectionLost (suite test : String) (stderr : List String)

namespace RunError

def message : RunError → String
  | setup cause => "setup failed: " ++ cause.message
  | connectionLost suite test _ =>
      "connection to MCP server lost during suite '" ++ suite ++ "' (last test: " ++ test ++ ")"

def sources : RunError → List String
  | setup cause => cause.message :: cause.sources
  | connectionLost _ _ _ => []

end RunError

/-- A message with those underneath it. -/
def chainText (messages : List String) : String := ": ".intercalate messages

/-- Why a test failed: what happened, and the descriptions put in front of it,
the outermost first. -/
structure Failure where
  context : List String := []
  cause : ClientError ⊕ String

namespace Failure

def ofError (e : ClientError) : Failure := { cause := .inl e }

/-- A broken expectation. -/
def ofText (s : String) : Failure := { cause := .inr s }

/-- Puts a description in front. -/
def within (f : Failure) (description : String) : Failure :=
  { f with context := description :: f.context }

/-- The message of the cause and of all underneath it. -/
def causeText : ClientError ⊕ String → List String
  | .inl e => e.message :: e.sources
  | .inr s => [s]

def message (f : Failure) : String := chainText (f.context ++ causeText f.cause)

end Failure

end Conformance
