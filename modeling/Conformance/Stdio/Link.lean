/-
Conformance — the client's end of a server process.

A link holds the process, the pipe to its input, and the reader of its output.
A line is written as one piece, its end included.  Once a stop was asked for
nothing is written, and the process is asked to end by that stop only.  What it
wrote is closed off by a late step of a stop, which a stop does not reach that
fails or is dropped before.
-/
import Conformance.Stdio.Exit
import Conformance.Stdio.Reader

namespace Conformance.Stdio

structure Link where
  /-- Set once a stop was asked for. -/
  stopped : Bool := false
  /-- Whether the process is held. -/
  holding : Bool := true
  /-- Whether the pipe to its input is open. -/
  inputOpen : Bool := true
  /-- The reader of its output, until that is closed. -/
  reader : Option Reader := some {}

/-- A line with its end, as it goes into the pipe. -/
def frame (line : String) : List UInt8 := Utf8.encode line ++ [Text.newline]

/-- So many octets lie in a pipe at most; who writes more waits until some are read. -/
def pipeCapacity : Nat := 65536

/-- Why a pipe takes nothing. -/
inductive PipeError where
  /-- No one reads it. -/
  | closed (cause : String)
  | other (cause : String)

def stoppedError : ClientError := .transportClosed "transport stopped"

def PipeError.error : PipeError → ClientError
  | closed cause => .transportClosed ("MCP server stdin closed: " ++ cause)
  | other cause => .io cause

namespace Link

/-- The outcome of writing a line, when the process has ended with `exited` if
it has, and the pipe would answer `pipe`. -/
def write (l : Link) (exited : Option ExitStatus) (pipe : Except PipeError Unit) :
    Except ClientError Unit :=
  if l.stopped then .error stoppedError
  else
    match if l.holding then exited else none with
    | some status => .error (.transportClosed ("MCP server exited with " ++ status.text))
    | none =>
        if l.inputOpen then
          match pipe with
          | .ok _ => .ok ()
          | .error e => .error e.error
        else .error (.transportClosed "stdin already closed")

/-- The reader, if the output is open. -/
def output (l : Link) : Except ClientError Reader :=
  match l.reader with
  | some r => .ok r
  | none => .error stoppedError

/-- Whether the server is there. -/
def isConnected (l : Link) (exited : Option ExitStatus) : Bool :=
  !l.stopped && l.holding && exited.isNone

/-! ## Stopping -/

/-- How the attempts to end a process turn out. -/
structure Attempts where
  /-- Whether it has ended already. -/
  check : Except String (Option ExitStatus)
  /-- Waiting for its end; nothing if it outlives the time given. -/
  wait : Option (Except String ExitStatus)
  kill : Except String Unit

/-- A signal sent to a process. -/
inductive Signal where
  | term
  | kill
deriving DecidableEq, Repr

/-- The signals that attempts send, and the failure of the last one.  A process
whose end was not seen is killed as it is let go of. -/
def Attempts.run (a : Attempts) : List Signal × Except ClientError Unit :=
  match a.check with
  | .ok (some _) => ([], .ok ())
  | .ok none | .error _ =>
      match a.wait with
      | some (.ok _) => ([.term], .ok ())
      | some (.error _) => ([.term, .kill], .ok ())
      | none =>
          match a.kill with
          | .ok _ => ([.term, .kill], .ok ())
          | .error cause => ([.term, .kill], .error (.io cause))

/-- Stops the server. -/
def stop (l : Link) (a : Attempts) : Link × List Signal × Except ClientError Unit :=
  if l.stopped then (l, [], .ok ())
  else
    let l := { l with stopped := true, inputOpen := false }
    let (signals, result) := if l.holding then a.run else ([], .ok ())
    let l := { l with holding := false }
    match result with
    | .ok _ => ({ l with reader := none }, signals, .ok ())
    | .error e => (l, signals, .error e)

/-- What is left of a link when a stop is dropped before it closes the output. -/
def stopDropped (l : Link) : Link :=
  if l.stopped then l else { l with stopped := true, inputOpen := false, holding := false }

/-- What is left of it when a stop is dropped after that, in the wait for the last complaints. -/
def stopDroppedLate (l : Link) : Link :=
  if l.stopped then l else { l.stopDropped with reader := none }

end Link

end Conformance.Stdio
