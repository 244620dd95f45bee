/-
Conformance — the error output of a server.

It is read all the time, so that the server never waits for it, and the last
lines of it are kept.  A line that is no text ends the reading.
-/
import Conformance.Text.Lines

namespace Conformance.Stdio

/-- So many lines are kept. -/
def tailLimit : Nat := 64

structure Drain where
  /-- The last lines, oldest first. -/
  tail : List String := []
  /-- The line under way. -/
  pending : List UInt8 := []
  /-- Whether it is still read. -/
  reading : Bool := true

namespace Drain

/-- Keeps one more line. -/
def push (tail : List String) (line : String) : List String :=
  (if tail.length = tailLimit then tail.drop 1 else tail) ++ [line]

/-- A line that has ended. -/
def line (d : Drain) (octets : List UInt8) : Drain :=
  if !d.reading then d
  else
    match Utf8.decode? octets with
    | some s => { d with tail := push d.tail s }
    | none => { d with reading := false }

/-- Octets arrive. -/
def take (d : Drain) (octets : List UInt8) : Drain :=
  if !d.reading then d
  else
    let pieces := Text.splitLines (d.pending ++ octets)
    let d := pieces.dropLast.foldl (fun d piece => d.line (Text.chomp piece)) d
    { d with pending := pieces.getLast?.getD [] }

/-- The output ends; what is under way is a line. -/
def finish (d : Drain) : Drain :=
  if d.pending.isEmpty then d else { d.line d.pending with pending := [] }

end Drain

end Conformance.Stdio
