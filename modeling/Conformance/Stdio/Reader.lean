/-
Conformance — lines from a stream of octets.

A stream comes in chunks, which need not end where lines do.  The reader keeps
what it has of a line under way, so a read that gives up loses nothing: the
next one goes on where it stopped.  A line ends with a newline or with the
stream; the newline and all carriage returns in front of it are no part of it.
-/
import Conformance.Client.Arrival
import Conformance.Text.Lines

namespace Conformance.Stdio

/-- Octets that arrive together. -/
structure Chunk where
  time : Instant
  octets : List UInt8

/-- What a stream delivers from now on: chunks in order, and its end if it has
one. -/
structure Stream where
  chunks : List Chunk
  ends : Option Instant

/-- What has arrived: a line under way, and octets that were not looked at. -/
structure Reader where
  pending : List UInt8 := []
  buffer : List UInt8 := []

/-- What a line that is no text is reported as. -/
def notTextReason : String := "line is not valid UTF-8"

/-- A line without the newline and the carriage returns at its end. -/
def bare (octets : List UInt8) : List UInt8 :=
  (octets.reverse.dropWhile fun b => b = Text.newline ∨ b = Text.carriageReturn).reverse

/-- A line as a text. -/
def lineItem (octets : List UInt8) : Except ClientError Incoming :=
  let octets := bare octets
  match Utf8.decode? octets with
  | some s => .ok (.line s)
  | none => .error (.malformed notTextReason (Utf8.decodeLossy octets))

/-- The octets up to the first newline, it included, and those behind it. -/
def cutLine : List UInt8 → Option (List UInt8 × List UInt8)
  | [] => none
  | b :: rest =>
      if b = Text.newline then some ([b], rest)
      else (cutLine rest).map fun (line, behind) => (b :: line, behind)

/-- The end of a read: the reader, the chunks that it left, when it ended, and
the item, unless the deadline came first. -/
structure ReadResult where
  reader : Reader
  rest : List Chunk
  time : Instant
  item : Option (Except ClientError Incoming)

/-- What the end of a stream delivers: the line under way, else the end. -/
def Reader.finish (r : Reader) : Reader × Except ClientError Incoming :=
  if r.pending.isEmpty then (r, .ok .endOfStream)
  else ({ pending := [], buffer := [] }, lineItem r.pending)

/-- Reads one item, until the deadline. -/
def Reader.read (deadline : Option Instant) (ends : Option Instant) :
    Reader → Instant → List Chunk → ReadResult
  | r, now, chunks =>
      match cutLine r.buffer with
      | some (line, behind) =>
          { reader := { pending := [], buffer := behind }, rest := chunks, time := now
            item := some (lineItem (r.pending ++ line)) }
      | none =>
          let r : Reader := { pending := r.pending ++ r.buffer, buffer := [] }
          match chunks with
          | [] =>
              match ends with
              | none => { reader := r, rest := [], time := deadline.getD now, item := none }
              | some t =>
                  if deadline.any (· < t) then
                    { reader := r, rest := [], time := deadline.getD now, item := none }
                  else
                    let (r, item) := r.finish
                    { reader := r, rest := [], time := max now t, item := some item }
          | c :: rest =>
              if deadline.any (· < c.time) then
                { reader := r, rest := c :: rest, time := deadline.getD now, item := none }
              else Reader.read deadline ends { r with buffer := c.octets } (max now c.time) rest
termination_by _ _ chunks => chunks

/-- How many items a stream can deliver at most, its end included. -/
def Stream.itemBound (r : Reader) (s : Stream) : Nat :=
  r.pending.length + r.buffer.length + s.chunks.foldr (fun c n => c.octets.length + n) 2

/-- The items that a stream delivers, up to its end. -/
def Reader.items (ends : Option Instant) :
    Nat → Reader → Instant → List Chunk → List Arrival
  | 0, _, _, _ => []
  | fuel + 1, r, now, chunks =>
      let result := r.read none ends now chunks
      match result.item with
      | none => []
      | some (.ok .endOfStream) => [{ time := result.time, item := .ok .endOfStream }]
      | some item =>
          { time := result.time, item }
            :: Reader.items ends fuel result.reader result.time result.rest

/-- What a stream delivers from `now` on. -/
def Reader.arrivals (r : Reader) (now : Instant) (s : Stream) : List Arrival :=
  r.items s.ends (s.itemBound r) now s.chunks

/-- Reads `n` items. -/
def Reader.skip (ends : Option Instant) : Nat → Reader → List Chunk → Reader × List Chunk
  | 0, r, chunks => (r, chunks)
  | n + 1, r, chunks =>
      let result := r.read none ends 0 chunks
      Reader.skip ends n result.reader result.rest

end Conformance.Stdio
