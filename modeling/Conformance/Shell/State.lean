/-
Conformance — a shell at work.

A shell is a stack of things to do and what it remembers.  What it does next
depends on nothing else but the clock and its input, so a shell that has to
wait can be left as it is and taken up again.
-/
import Conformance.Shell.Arithmetic
import Conformance.Shell.Command
import Conformance.Shell.Filter
import Conformance.DemoServer.Server
import Conformance.Machine.Files
import Conformance.Stdio.Exit

namespace Conformance.Shell

/-- Where output goes. -/
inductive Sink where
  | output
  | errors
  | nowhere
  /-- Gathered for the next command of a pipeline. -/
  | gathered
deriving DecidableEq

/-- Where input comes from. -/
inductive Source where
  | input
  | octets (bs : List UInt8)
deriving DecidableEq

structure Streams where
  input : Source := .input
  output : Sink := .output
  errors : Sink := .errors
deriving DecidableEq

/-- How a line is read into variables. -/
structure LineRead where
  /-- Whether a backslash is a character like any other. -/
  raw : Bool
  separators : List Char
  names : List String
  /-- When to give up. -/
  deadline : Option Instant

/-- Something to do. -/
inductive Task where
  | run (c : Cmd)
  /-- Runs a command if the last one succeeded, or if it failed. -/
  | runIf (succeeded : Bool) (c : Cmd)
  | negate
  | decide (yes no : Cmd)
  /-- Behind the condition of a loop. -/
  | loopOn (inverted : Bool) (condition body : Cmd)
  /-- Behind the body of a loop. -/
  | loopAgain (inverted : Bool) (condition body : Cmd)
  | eachNext (name : String) (values : List String) (body : Cmd)
  | restore (streams : Streams)
  /-- Puts variables and arguments back, at the end of a part that leaves them. -/
  | endApart (bindings : Variables) (arguments : List String)
  /-- Puts arguments back, at the end of a function. -/
  | endFunction (arguments : List String)
  /-- Hands what was gathered to the next command of a pipeline. -/
  | pipeInto (c : Cmd) (streams : Streams)
  | sleepUntil (t : Instant)
  | readLine (r : LineRead)
  /-- Copies the input to the output. -/
  | copy
  /-- Reads the input on, behind what was read of it, for a filter. -/
  | filter (f : Filter) (seen : List UInt8)
  /-- Serves as the demonstration server. -/
  | serve (s : DemoServer.State)
  /-- Runs the commands on the input. -/
  | interpret
  | finish

structure State where
  work : List Task := []
  bindings : Variables := []
  /-- The name of the script, then its arguments. -/
  arguments : List String := ["bash"]
  functions : List (String × Cmd) := []
  /-- The status of the last command. -/
  status : Nat := 0
  streams : Streams := {}
  gathered : List (List UInt8) := []
  /-- What to do on a signal, by its number; nothing, if the text is empty. -/
  traps : List (Nat × String) := []
  /-- Scripts that signals have called for. -/
  called : List String := []
  files : Machine.Files := {}

/-- The octets that were written to a process and not read, and whether there
will be more. -/
structure Inlet where
  octets : List UInt8 := []
  closed : Bool := false

/-- What a step shows. -/
inductive Effect where
  | silent
  | write (octets : List UInt8)
  | complain (octets : List UInt8)
  /-- Nothing can be done before this instant, or before there is input. -/
  | wait (deadline : Option Instant) (forInput : Bool)
  | ended (status : Stdio.ExitStatus)

/-- A step. -/
structure Turn where
  state : State
  inlet : Inlet
  effect : Effect := .silent

/-! ## Input -/

inductive Line where
  /-- A line; `ended` if a newline ended it. -/
  | line (octets : List UInt8) (ended : Bool)
  | endOfInput
  /-- There is no whole line yet. -/
  | notYet

/-- Takes a line from octets. -/
def lineOf (closed : Bool) (octets : List UInt8) : Line × List UInt8 :=
  let first := octets.takeWhile (· ≠ 10)
  if first.length < octets.length then (.line first true, octets.drop (first.length + 1))
  else if !closed then (.notYet, octets)
  else if octets.isEmpty then (.endOfInput, [])
  else (.line octets false, [])

/-- Takes a line from where input comes from. -/
def State.takeLine (s : State) (inlet : Inlet) : Line × State × Inlet :=
  match s.streams.input with
  | .input =>
      let (line, rest) := lineOf inlet.closed inlet.octets
      (line, s, { inlet with octets := rest })
  | .octets bs =>
      let (line, rest) := lineOf true bs
      (line, { s with streams := { s.streams with input := .octets rest } }, inlet)

/-- Takes all that is there, and tells whether there will be more. -/
def State.takeAll (s : State) (inlet : Inlet) : List UInt8 × Bool × State × Inlet :=
  match s.streams.input with
  | .input => (inlet.octets, !inlet.closed, s, { inlet with octets := [] })
  | .octets bs =>
      (bs, false, { s with streams := { s.streams with input := .octets [] } }, inlet)

/-! ## Output -/

/-- Writes to where a stream goes. -/
def State.emit (s : State) (sink : Sink) (octets : List UInt8) : State × Effect :=
  if octets.isEmpty then (s, .silent)
  else
    match sink with
    | .output => (s, .write octets)
    | .errors => (s, .complain octets)
    | .nowhere => (s, .silent)
    | .gathered =>
        match s.gathered with
        | [] => (s, .silent)
        | top :: rest => ({ s with gathered := (top ++ octets) :: rest }, .silent)

/-! ## Leaving -/

/-- Drops tasks up to one for which `stop` holds; what they would put back is
put back. -/
def unwind (stop : Task → Bool) : List Task → State → State
  | [], s => { s with work := [] }
  | t :: rest, s =>
      if stop t then { s with work := t :: rest }
      else
        let s := match t with
          | .restore streams => { s with streams }
          | .pipeInto _ streams => { s with streams, gathered := s.gathered.tail }
          | .endFunction arguments => { s with arguments }
          | .endApart bindings arguments => { s with bindings, arguments }
          | _ => s
        unwind stop rest s

def Task.isLoop : Task → Bool
  | .loopAgain _ _ _ | .eachNext _ _ _ => true
  | _ => false

def Task.isApart : Task → Bool
  | .endApart _ _ => true
  | _ => false

def Task.isFunction : Task → Bool
  | .endFunction _ => true
  | _ => false

/-- A program in the foreground: scripts that signals call for wait for it. -/
def Task.isProgram : Task → Bool
  | .sleepUntil _ | .copy | .filter _ _ | .serve _ => true
  | _ => false

/-- Ends the script, or the part that is on its own. -/
def State.exit (s : State) (status : Nat) : State := { unwind Task.isApart s.work s with status }

end Conformance.Shell
