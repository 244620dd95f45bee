/-
Conformance — transports.

A transport moves lines between a client and one server on a clock.  It is
given by what it does at an instant: write a line, tell what reading would
deliver from then on if nothing more were written, take what was read, stop.
Reading is a forecast followed by taking, so a read that is dropped takes
nothing that it has not delivered.  A write may take its time, and what has gone
out of a line when its write is dropped is with the server.
-/
import Conformance.Client.Connection

namespace Conformance

/-- A write under way: when it ends, if it does, what it leaves behind and
reports, and what is left if it is dropped at an instant before. -/
structure Sending (σ : Type) where
  ends : Option Instant
  after : σ
  result : Except ClientError Unit
  dropped : Instant → σ

/-- A write that ends at once. -/
def Sending.at {σ : Type} (now : Instant) (w : σ × Except ClientError Unit) : Sending σ :=
  { ends := some now, after := w.1, result := w.2, dropped := fun _ => w.1 }

/-- A stop under way: when it ends, what it leaves behind and reports, and what
is left if it is dropped before. -/
structure Stopping (σ : Type) where
  ends : Instant
  after : σ
  result : Except ClientError Unit
  dropped : σ

/-- A transport with states `σ`. -/
structure Transport (σ : Type) where
  /-- Writes a line. -/
  write : Instant → String → σ → Sending σ
  /-- What reading delivers from now on if nothing more is written. -/
  arrivals : Instant → σ → List Arrival
  /-- Takes the first items that reading delivers. -/
  take : Instant → Nat → σ → σ
  /-- Whether the server is there. -/
  connected : Instant → σ → σ × Bool
  /-- Stops the server, which has a length of time to go by itself. -/
  stop : Instant → Duration → σ → Stopping σ
  /-- The last lines that the server wrote to its error output. -/
  stderr : Instant → σ → List String

/-- A client between operations: its clock, what it knows of the connection,
and the transport. -/
structure Session (σ : Type) where
  now : Instant := 0
  conn : Connection := {}
  wire : σ

end Conformance
