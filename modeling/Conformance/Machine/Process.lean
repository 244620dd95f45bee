/-
Conformance — processes.

A process is a shell at work between pipes, on a clock.  It takes no time but
where it waits.  What it will do from an instant on depends only on what is
written to it and on the signals it gets, so its future can be looked at
without changing it.
-/
import Conformance.Shell.Run
import Conformance.Stdio.Drain
import Conformance.Stdio.Link

namespace Conformance.Machine

structure Process where
  shell : Shell.State
  inlet : Shell.Inlet := {}
  /-- The instant up to which it has run. -/
  clock : Instant := 0
  /-- What it wrote and no one has read. -/
  output : List Stdio.Chunk := []
  outputEnds : Option Instant := none
  errors : Stdio.Drain := {}
  /-- Since when no one reads its error output. -/
  errorsClosed : Option Instant := none
  exited : Option (Instant × Stdio.ExitStatus) := none

namespace Process

/-- How it ended, if it has. -/
def status? (p : Process) : Option Stdio.ExitStatus := p.exited.map (·.2)

/-- It ends; its pipes end with it. -/
def finish (p : Process) (status : Stdio.ExitStatus) : Process :=
  { p with
    exited := some (p.clock, status)
    outputEnds := some (p.outputEnds.getD p.clock)
    errors := p.errors.finish }

/-- It writes to its error output.  A write after the instant at which the last
reader went ends it. -/
def complain (p : Process) (octets : List UInt8) : Process :=
  if p.errorsClosed.any (· < p.clock) then p.finish (.signal Stdio.pipeSignal)
  else
    let errors := p.errors.take octets
    let errorsClosed := if errors.reading then none else some (p.errorsClosed.getD p.clock)
    { p with errors, errorsClosed }

/-- Closes the pipes that it no longer holds. -/
def release (p : Process) : Process :=
  let outputEnds :=
    if p.shell.holdsOutput then p.outputEnds else some (p.outputEnds.getD p.clock)
  let errors := if p.shell.holdsErrors then p.errors else p.errors.finish
  { p with outputEnds, errors }

/-- The process after a turn of its shell. -/
def after (p : Process) (turn : Shell.Turn) : Process :=
  let p := { p with shell := turn.state, inlet := turn.inlet }
  match turn.effect with
  | .write octets => { p with output := p.output ++ [{ time := p.clock, octets }] }
  | .complain octets => p.complain octets
  | .ended status => p.finish status
  | .silent => p.release
  | .wait _ _ => p

/-- Runs until something holds, or nothing is left to do up to an instant, or at all. -/
def runTill (halted : Process → Bool) (horizon : Option Instant) : Nat → Process → Process
  | 0, p => p
  | fuel + 1, p =>
      if halted p then p
      else
        let turn := p.shell.step p.clock p.inlet
        let p := p.after turn
        match turn.effect with
        | .wait (some t) _ =>
            if horizon.all (t ≤ ·) then
              runTill halted horizon fuel { p with clock := max p.clock t }
            else p
        | .wait none _ => p
        | _ => runTill halted horizon fuel p

/-- Runs until nothing is left to do up to an instant, or at all. -/
def runOn (horizon : Option Instant) (fuel : Nat) (p : Process) : Process :=
  p.runTill (·.exited.isSome) horizon fuel

/-- The steps that a process may take at once. -/
def stepBound : Nat := 20000

/-- Runs up to an instant. -/
def advance (p : Process) (now : Instant) : Process :=
  let p := p.runOn (some now) stepBound
  { p with clock := max p.clock now }

/-- Runs as far as it can by itself. -/
def forecast (p : Process) : Process := p.runOn none stepBound

/-- What its output delivers from now on, if nothing more is written to it. -/
def stream (p : Process) : Stdio.Stream :=
  let later := p.forecast
  { chunks := later.output, ends := later.outputEnds }

/-- Whether it still reads its input. -/
def readsInput (p : Process) : Bool := p.exited.isNone && p.shell.holdsInput

/-- Octets are written to it at an instant.  Those that the pipe does not hold
go on into it as it is read. -/
def receive (p : Process) (now : Instant) (octets : List UInt8) : Process :=
  let p := p.advance now
  { p with inlet := { p.inlet with octets := p.inlet.octets ++ octets } }.advance now

/-- Whether the pipe holds all that was written to it and not read. -/
def inputFits (p : Process) : Bool := p.inlet.octets.length ≤ Stdio.pipeCapacity

/-- Runs until the pipe holds all that was written, or no one reads it. -/
def makeRoom (p : Process) : Process :=
  p.runTill (fun p => p.inputFits || !p.readsInput) none stepBound

/-- What the pipe does not hold is not written after all. -/
def cutInput (p : Process) : Process :=
  { p with inlet := { p.inlet with octets := p.inlet.octets.take Stdio.pipeCapacity } }

/-- Its input is closed at an instant. -/
def closeInput (p : Process) (now : Instant) : Process :=
  let p := p.advance now
  { p with inlet := { p.inlet with closed := true } }.advance now

/-- It gets a signal at an instant. -/
def signal (p : Process) (now : Instant) (n : Nat) : Process :=
  let p := p.advance now
  if p.exited.isSome then p
  else
    match p.shell.signal n with
    | some shell => { p with shell }.advance now
    | none => p.finish (.signal n)

end Process

end Conformance.Machine
