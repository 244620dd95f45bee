/-
Conformance — what arrives, and the wait for a response.

What a server sends is a line of items, each with the instant from which it
can be read; an item that is late holds up the ones behind it.  The wait for a
response reads them one by one under one deadline, which lines that say nothing
to the waiting request do not move.  An item that comes at the deadline is
still read, but after the deadline nothing is.
-/
import Conformance.Client.Error
import Conformance.Text.Blank

namespace Conformance

/-- One read. -/
inductive Incoming where
  /-- A line, without its end. -/
  | line (text : String)
  /-- The output has ended. -/
  | endOfStream

/-- An item, and when it is there. -/
structure Arrival where
  time : Instant
  item : Except ClientError Incoming

/-- What an item decides for the one who awaits a response. -/
inductive Verdict where
  /-- The response. -/
  | answer (r : Wire.Response)
  /-- The response, badly shaped. -/
  | misshapen (e : ClientError)
  /-- The wait cannot go on. -/
  | refuse (e : ClientError)

/-- What a document decides for request `id`, when requests up to `abandoned`
were given up; `raw` is its line.  A message of the server's own and a late
answer to a request that was given up decide nothing. -/
def judgeDocument (id : Nat) (abandoned : Option Nat) (raw : String) (v : Json) :
    Option Verdict :=
  if (v.get? "method").isSome then none
  else
    match Wire.Response.decode v with
    | .error e => some (.refuse (.malformed ("not a JSON-RPC response: " ++ e.message) raw))
    | .ok r =>
        if r.id == id then
          match r.misshape with
          | none => some (.answer r)
          | some m => some (.misshapen (.malformed m.text raw))
        else if abandoned.any (r.id ≤ ·) then none
        else some (.refuse (.idMismatch id r.id))

/-- What a line decides; a blank one decides nothing. -/
def judgeLine (id : Nat) (abandoned : Option Nat) (line : String) : Option Verdict :=
  let raw := Text.trim line
  if raw.isEmpty then none
  else
    match Json.parse raw with
    | .error e => some (.refuse (.malformed ("invalid JSON: " ++ e.message) raw))
    | .ok v => judgeDocument id abandoned raw v

/-- What an item decides.  A read that gave up by itself is reported with the
length of time of the whole wait, `limit`. -/
def judge (id : Nat) (abandoned : Option Nat) (limit : Duration) :
    Except ClientError Incoming → Option Verdict
  | .ok (.line text) => judgeLine id abandoned text
  | .ok .endOfStream => some (.refuse .endOfStream)
  | .error (.readTimeout _) => some (.refuse (.readTimeout limit))
  | .error e => some (.refuse e)

/-- The end of a wait: when, after how many items, and with what verdict. -/
structure Wait where
  ends : Instant
  taken : Nat
  verdict : Verdict

/-- The wait of request `id` from `now` on, until `deadline`; `limit` is the
length of time that a timeout reports. -/
def await (id : Nat) (abandoned : Option Nat) (limit : Duration) (deadline : Instant) :
    Instant → List Arrival → Wait
  | now, [] =>
      { ends := max now deadline, taken := 0, verdict := .refuse (.readTimeout limit) }
  | now, a :: rest =>
      if deadline ≤ now then
        { ends := now, taken := 0, verdict := .refuse (.readTimeout limit) }
      else if deadline < a.time then
        { ends := deadline, taken := 0, verdict := .refuse (.readTimeout limit) }
      else
        let now := max now a.time
        match judge id abandoned limit a.item with
        | some v => { ends := now, taken := 1, verdict := v }
        | none =>
            let w := await id abandoned limit deadline now rest
            { w with taken := w.taken + 1 }

/-- How many of the first `n` items a wait has read by `now`. -/
def readBy (now : Instant) (n : Nat) (arrivals : List Arrival) : Nat :=
  ((arrivals.take n).takeWhile fun a => a.time ≤ now).length

end Conformance
