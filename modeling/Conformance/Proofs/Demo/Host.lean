/-
Conformance — the demonstration server behind a transport.

A line that is written is answered after a lag, which may be another for every line; answers come in
the order of the lines.  How long the lags are, which paths exist and what is logged are the `Site` of
the server.  The server is there until it is stopped or a line has ended it.
-/
import Conformance.Client.Transport
import Conformance.DemoServer.Server
import Conformance.Stdio.Link

namespace Conformance.DemoServer

/-- What surrounds a server. -/
structure Site where
  /-- Which paths exist. -/
  isThere : String → Bool
  /-- The time until the last of some lines is answered. -/
  lag : List String → Duration
  /-- What the error output ends with after some lines. -/
  complaints : List String → List String

/-- A server behind a transport. -/
structure Hosted where
  server : State
  /-- The lines so far. -/
  heard : List String := []
  /-- What it has sent and no one has read. -/
  queue : List Arrival := []
  /-- The instant of the last answer. -/
  latest : Instant := 0
  /-- When a line ended it. -/
  exits : Option Instant := none
  stopped : Bool := false

namespace Hosted

/-- A server with some flags, before it has heard anything. -/
def fresh (flags : Flags) : Hosted := { server := { flags } }

def isThere (now : Instant) (h : Hosted) : Bool := !h.stopped && !h.exits.any (· ≤ now)

/-- What answers a line that comes at an instant. -/
def items (time : Instant) : Option (List String) → List Arrival
  | some lines => lines.map fun line => { time, item := .ok (.line line) }
  | none => [{ time, item := .ok .endOfStream }]

theorem time_of_items {time : Instant} {out : Option (List String)} :
    ∀ a ∈ items time out, a.time = time := by
  intro a ha
  cases out with
  | none =>
      cases List.mem_singleton.mp ha
      rfl
  | some lines =>
      obtain ⟨line, _, rfl⟩ := List.mem_map.mp ha
      rfl

/-- When a line is answered. -/
def answeredAt (site : Site) (now : Instant) (line : String) (h : Hosted) : Instant :=
  max h.latest (now + site.lag (h.heard ++ [line]))

/-- The server has a line to answer. -/
def answering (site : Site) (now : Instant) (line : String) (h : Hosted) : Hosted where
  server := (answerLine site.isThere h.server line).1
  heard := h.heard ++ [line]
  queue := h.queue ++ items (h.answeredAt site now line) (answerLine site.isThere h.server line).2
  latest := h.answeredAt site now line
  exits :=
    if (answerLine site.isThere h.server line).2.isNone then some (h.answeredAt site now line)
    else none
  stopped := h.stopped

section Answering

variable (site : Site) (now : Instant) (line : String) (h : Hosted)

@[simp]
theorem server_answering : (h.answering site now line).server
    = (answerLine site.isThere h.server line).1 := by
  simp only [answering]

@[simp]
theorem heard_answering : (h.answering site now line).heard = h.heard ++ [line] := by
  simp only [answering]

@[simp]
theorem queue_answering : (h.answering site now line).queue = h.queue ++
    items (h.answeredAt site now line) (answerLine site.isThere h.server line).2 := by
  simp only [answering]

@[simp]
theorem latest_answering : (h.answering site now line).latest = h.answeredAt site now line := by
  simp only [answering]

@[simp]
theorem exits_answering : (h.answering site now line).exits =
    if (answerLine site.isThere h.server line).2.isNone then some (h.answeredAt site now line)
    else none := by
  simp only [answering]

@[simp]
theorem stopped_answering : (h.answering site now line).stopped = h.stopped := by
  simp only [answering]

end Answering

/-- A line is written to the server.  What comes behind a line that ends it is not read. -/
def receive (site : Site) (now : Instant) (line : String) (h : Hosted) :
    Hosted × Except ClientError Unit :=
  if h.isThere now then
    (if h.exits.isSome then { h with heard := h.heard ++ [line] } else h.answering site now line,
      .ok ())
  else
    (h, .error (if h.stopped then Stdio.stoppedError
      else .transportClosed ("MCP server exited with " ++ (Stdio.ExitStatus.code exitStatus).text)))

end Hosted

/-- The server as a transport. -/
def hosted (site : Site) : Transport Hosted where
  write now line h := .at now (h.receive site now line)
  arrivals _ h := h.queue
  take _ n h := { h with queue := h.queue.drop n }
  connected now h := (h, h.isThere now)
  stop now _ h :=
    { ends := now, after := { h with stopped := true }, result := .ok ()
      dropped := { h with stopped := true } }
  stderr _ h := site.complaints h.heard

end Conformance.DemoServer
