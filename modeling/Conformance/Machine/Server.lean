/-
Conformance — a server on a machine.

A server is a process with the client's end of its pipes: a transport.  To stop
it, its input is closed and it is asked to end; if it outlives the time given,
it is ended.
-/
import Conformance.Client.Transport
import Conformance.Machine.Launch
import Conformance.Stdio.Link

namespace Conformance.Machine

structure Server where
  process : Process
  link : Stdio.Link := {}
  /-- Whether its end was noticed. -/
  noticed : Bool := false

namespace Server

/-- Lets the process run up to an instant. -/
def advance (s : Server) (now : Instant) : Server := { s with process := s.process.advance now }

/-- Notices the end of the process. -/
def notice (s : Server) : Server := { s with noticed := s.noticed || s.process.exited.isSome }

/-- What a pipe that no one reads answers. -/
def brokenPipe : Stdio.PipeError := .closed SystemError.brokenPipe.message

/-- What the pipe to its input answers. -/
def pipe (s : Server) : Except Stdio.PipeError Unit :=
  if s.process.readsInput then .ok () else .error brokenPipe

/-- Writes a line: into the pipe what it holds, the rest as the process reads.
If the write is dropped, the rest is not written. -/
def write (now : Instant) (line : String) (s : Server) : Sending Server :=
  let s := s.advance now
  match s.link.write s.process.status? s.pipe with
  | .error e => .at now (s.notice, .error e)
  | .ok _ =>
      let process := s.process.receive now (Stdio.frame line)
      let later := process.makeRoom
      let ends := max now later.clock
      { ends := if later.inputFits || !later.readsInput then some ends else none
        after := { s with process := process.advance ends }
        result := if later.inputFits then .ok () else .error brokenPipe.error
        dropped := fun t => { s with process := (process.advance t).cutInput } }

/-- What reading delivers from an instant on. -/
def arrivals (now : Instant) (s : Server) : List Arrival :=
  match s.link.output with
  | .error e => [{ time := now, item := .error e }]
  | .ok r => r.arrivals now s.process.stream

/-- Takes the first items. -/
def take (now : Instant) (n : Nat) (s : Server) : Server :=
  let s := s.advance now
  match s.link.reader with
  | none => s
  | some r =>
      let (r, rest) := Stdio.Reader.skip s.process.outputEnds n r s.process.output
      { s with link := { s.link with reader := some r }
               process := { s.process with output := rest } }

def connected (now : Instant) (s : Server) : Server × Bool :=
  let s := s.advance now
  (s.notice, s.link.isConnected s.process.status?)

/-- Whether the process has a number: it has until its end is noticed. -/
def hasNumber (s : Server) : Bool := s.link.holding && !s.noticed

/-- The process, asked to end and given some time: what becomes of it, when,
and how the attempts turn out. -/
def endProcess (p : Process) (now : Instant) (grace : Duration) :
    Process × Instant × Stdio.Link.Attempts :=
  match p.status? with
  | some status =>
      (p, now, { check := .ok (some status), wait := none, kill := .ok () })
  | none =>
      let p := ((p.closeInput now).signal now Stdio.termSignal).advance (now + grace)
      match p.exited with
      | some (t, status) =>
          (p, max now t, { check := .ok none, wait := some (.ok status), kill := .ok () })
      | none =>
          (p.signal (now + grace) Stdio.killSignal, now + grace,
            { check := .ok none, wait := none, kill := .ok () })

def stop (now : Instant) (grace : Duration) (s : Server) : Stopping Server :=
  let s := s.advance now
  if s.link.stopped then { ends := now, after := s, result := .ok (), dropped := s }
  else
    let (process, ends, attempts) := endProcess s.process now grace
    let (link, _, result) := s.link.stop attempts
    { ends, result
      after := { s with process, link }
      dropped := { s with process := s.process.signal now Stdio.killSignal
                          link := s.link.stopDropped } }

/-- The last lines of its error output. -/
def complaints (now : Instant) (s : Server) : List String := (s.advance now).process.errors.tail

/-- A server as a transport. -/
def transport : Transport Server where
  write := write
  arrivals := arrivals
  take := take
  connected := connected
  stop := stop
  stderr := complaints

/-- Starts a server. -/
def start (files : Files) (now : Instant) (c : ServerCommand) : Except ClientError Server :=
  match launch files now c with
  | .ok process => .ok { process := process.advance now }
  | .error e => .error (.processSpawn c.text e.message)

end Server

/-! ## Probes -/

/-- One thing done with a server, without a client. -/
inductive Probe where
  | write (line : String)
  | read (limit : Duration)
  | connected
  | hasNumber
  | stop (grace : Duration)
  /-- Waits until it is gone. -/
  | awaitEnd
  /-- Waits until the last line of its error output is this one. -/
  | awaitComplaint (last : String)

inductive Probed where
  | done
  | line (text : String)
  | endOfStream
  | connected (b : Bool)
  | hasNumber (b : Bool)
  | complaints (lines : List String)
  | failed (e : ClientError)

namespace Server

/-- How often a wait looks, and how many times. -/
def lookInterval : Duration := Duration.ofMillis 10

def lookBound : Nat := 1000

/-- Lets time pass until something holds. -/
def waitFor (holds : Server → Bool) : Nat → Instant → Server → Instant × Server
  | 0, now, s => (now, s)
  | n + 1, now, s =>
      let s := s.advance now
      if holds s then (now, s) else waitFor holds n (now + lookInterval) s

/-- Reads one item. -/
def read (now : Instant) (limit : Duration) (s : Server) : Instant × Server × Probed :=
  match s.link.output with
  | .error e => (now, s, .failed e)
  | .ok r =>
      let stream := s.process.stream
      let result := r.read (some (now + limit)) stream.ends now stream.chunks
      match result.item with
      | none => (now + limit, s.advance (now + limit), .failed (.readTimeout limit))
      | some item =>
          (result.time, s.take result.time 1,
            match item with
            | .ok (.line text) => .line text
            | .ok .endOfStream => .endOfStream
            | .error e => .failed e)

/-- Does one thing. -/
def probe (now : Instant) (s : Server) : Probe → Instant × Server × Probed
  | .write line =>
      let sending := s.write now line
      (sending.ends.getD now, sending.after,
        match sending.result with
        | .ok _ => .done
        | .error e => .failed e)
  | .read limit => s.read now limit
  | .connected =>
      let (s, b) := s.connected now
      (now, s, .connected b)
  | .hasNumber => (now, s, .hasNumber s.hasNumber)
  | .stop grace =>
      let stopping := s.stop now grace
      (stopping.ends, stopping.after,
        match stopping.result with
        | .ok _ => .done
        | .error e => .failed e)
  | .awaitEnd =>
      let (now, s) := waitFor (fun s => !s.link.isConnected s.process.status?) lookBound now s
      (now, s.notice, .connected (s.link.isConnected s.process.status?))
  | .awaitComplaint last =>
      let (now, s) := waitFor (fun s => s.process.errors.tail.getLast? = some last) lookBound now s
      (now, s, .complaints s.process.errors.tail)

/-- Does one thing after the other. -/
def probes (now : Instant) (s : Server) : List Probe → List Probed
  | [] => []
  | p :: rest =>
      let (now, s, r) := s.probe now p
      r :: probes now s rest

end Server

end Conformance.Machine
