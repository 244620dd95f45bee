/-
Conformance — operations side by side.

Several branches share one client.  Each may rest first, then does one piece of
work, and may be dropped after a limit.  Branches are polled in their order,
all of them at every instant at which one of them can go on; time passes only
when none can.  The connection is handed over in the order in which branches
asked for it: when its holder ends, the first in line holds it at once, whether
or not that branch has been polled since.

A deadline may enclose all branches.  At the instant of the deadline they are
polled once more, then what has not ended is dropped.
-/
import Conformance.Client.Transport

namespace Conformance

/-- A piece of work. -/
inductive Work where
  | use (op : Operation)
  /-- Rests without a connection. -/
  | rest (d : Duration)

/-- A piece of work, after a pause, for at most some length of time. -/
structure Branch where
  pause : Duration := 0
  limit : Option Duration := none
  work : Work

/-- How a branch ends. -/
inductive Ending where
  | returned (o : Outcome)
  /-- Dropped at its limit. -/
  | cancelled
  /-- It broke down. -/
  | crashed (message : String)

/-- When branches are done: with the last of them, or with the first error. -/
inductive Gather where
  | all
  | firstError
deriving DecidableEq

/-- Where a branch stands. -/
inductive Place (σ : Type) where
  /-- Before its work. -/
  | pausing (wakes : Instant)
  | resting (wakes : Instant)
  /-- In line for the connection; or holding it, and not polled since. -/
  | queued (op : Operation)
  /-- Writes a line. -/
  | writing (why : Writing) (s : Sending σ)
  /-- Awaits a response. -/
  | reading (purpose : Purpose) (w : Wait)
  | stopping (s : Stopping σ)
  | ended (e : Ending)

structure Task (σ : Type) where
  place : Place σ
  work : Work
  limit : Option Duration
  /-- The instant of its limit, once its work has begun. -/
  dropAt : Option Instant := none

/-- Branches under way. -/
structure Board (σ : Type) where
  session : Session σ
  holder : Option Nat := none
  line : List Nat := []
  tasks : List (Task σ)

/-- The first instant that the clock cannot tell: its seconds are a signed
64-bit word. -/
def clockEnd : Instant := Duration.ofSecs Word.signedBound

/-- What is reported when a deadline would lie beyond the clock. -/
def clockOverflow : String := "overflow when adding duration to instant"

namespace Board

variable {σ : Type}

def setTask (b : Board σ) (i : Nat) (f : Task σ → Task σ) : Board σ :=
  { b with tasks := b.tasks.modify i f }

def setPlace (b : Board σ) (i : Nat) (p : Place σ) : Board σ :=
  b.setTask i fun t => { t with place := p }

/-- The holder gives the connection to the first in line. -/
def release (b : Board σ) : Board σ :=
  { b with holder := b.line.head?, line := b.line.tail }

def setConn (b : Board σ) (c : Connection) : Board σ :=
  { b with session := { b.session with conn := c } }

def setWire (b : Board σ) (w : σ) : Board σ :=
  { b with session := { b.session with wire := w } }

/-- The answer to a question. -/
def look (T : Transport σ) (s : Session σ) : Query → Session σ × Reply
  | .state => (s, .state s.conn.state)
  | .connected =>
      if s.conn.state = .disconnected then (s, .connected false)
      else
        let (w, up) := T.connected s.now s.wire
        ({ s with wire := w }, .connected up)
  | .server => (s, .server (s.conn.server.bind Wire.OpenResult.serverInfo))
  | .stderr => (s, .stderr (T.stderr s.now s.wire))
  | .lastId => (s, .lastId s.conn.lastId)

/-- Drives branch `i`, which holds the connection, until it ends or has to
wait.  No operation has more than four phases. -/
def drive (T : Transport σ) (o : ClientOptions) (i : Nat) :
    Nat → Board σ → Connection × Progress → Board σ
  | 0, b, _ => b
  | fuel + 1, b, (c, progress) =>
      let b := b.setConn c
      let now := b.session.now
      match progress with
      | .ended r => (b.setPlace i (.ended (.returned r))).release
      | .next (.await purpose id) =>
          let deadline := now + o.requestTimeout
          if clockEnd ≤ deadline then
            (b.setPlace i (.ended (.crashed clockOverflow))).release
          else
            let w := await id c.abandoned o.requestTimeout deadline now
              (T.arrivals now b.session.wire)
            if w.ends ≤ now then
              drive T o i fuel (b.setWire (T.take now w.taken b.session.wire))
                (c.settled purpose w.verdict)
            else b.setPlace i (.reading purpose w)
      | .next (.write why text) =>
          let s := T.write now text b.session.wire
          if s.ends.any (· ≤ now) then
            drive T o i fuel (b.setWire s.after) (c.written why s.result)
          else b.setPlace i (.writing why s)
      | .next (.stop grace) =>
          let s := T.stop now grace b.session.wire
          if s.ends ≤ now then drive T o i fuel (b.setWire s.after) (c.stopped s.result)
          else b.setPlace i (.stopping s)
      | .next (.ask q) =>
          let (s, r) := look T b.session q
          ({ b with session := s }.setPlace i (.ended (.returned (.ok r)))).release

/-- The number of phases of an operation, its end included. -/
def phases : Nat := 5

/-- Branch `i` holds the connection and starts its operation. -/
def enter (T : Transport σ) (o : ClientOptions) (i : Nat) (op : Operation) (b : Board σ) :
    Board σ :=
  drive T o i phases b (b.session.conn.begin o op)

/-- Branch `i` asks for the connection. -/
def acquire (T : Transport σ) (o : ClientOptions) (i : Nat) (op : Operation) (b : Board σ) :
    Board σ :=
  match b.holder with
  | none => enter T o i op { b with holder := some i }
  | some _ =>
      if op.heedsPolicy && o.policy = .reject then
        b.setPlace i (.ended (.returned (.error .busy)))
      else { b with line := b.line ++ [i] }.setPlace i (.queued op)

/-- The work of branch `i` begins, and its limit starts to count. -/
def beginWork (T : Transport σ) (o : ClientOptions) (i : Nat) (t : Task σ) (b : Board σ) :
    Board σ :=
  let now := b.session.now
  let b := b.setTask i fun t => { t with dropAt := t.limit.map (now + ·) }
  match t.work with
  | .use op => acquire T o i op b
  | .rest d =>
      if d = 0 then b.setPlace i (.ended (.returned (.ok .done)))
      else b.setPlace i (.resting (now + d))

/-- Branch `i` goes on as far as it can at this instant. -/
def goOn (T : Transport σ) (o : ClientOptions) (i : Nat) (t : Task σ) (b : Board σ) : Board σ :=
  let now := b.session.now
  match t.place with
  | .pausing wakes => if now < wakes then b else beginWork T o i t b
  | .resting wakes => if now < wakes then b else b.setPlace i (.ended (.returned (.ok .done)))
  | .queued op => if b.holder = some i then enter T o i op b else b
  | .writing why s =>
      if s.ends.any (· ≤ now) then
        drive T o i phases (b.setWire s.after) (b.session.conn.written why s.result)
      else b
  | .reading purpose w =>
      if now < w.ends then b
      else
        drive T o i phases (b.setWire (T.take now w.taken b.session.wire))
          (b.session.conn.settled purpose w.verdict)
  | .stopping s =>
      if now < s.ends then b
      else
        drive T o i phases (b.setWire s.after) (b.session.conn.stopped s.result)
  | .ended _ => b

/-- Branch `i` is dropped where it stands. -/
def drop (T : Transport σ) (i : Nat) (t : Task σ) (b : Board σ) : Board σ :=
  let now := b.session.now
  let b' := b.setPlace i (.ended .cancelled)
  match t.place with
  | .queued _ =>
      if b.holder = some i then b'.release else { b' with line := b'.line.filter (· ≠ i) }
  | .writing _ s => (b'.setWire (s.dropped now)).release
  | .reading _ w =>
      let read := readBy now w.taken (T.arrivals now b.session.wire)
      (b'.setWire (T.take now read b.session.wire)).release
  | .stopping s => (b'.setWire s.dropped).release
  | .pausing _ | .resting _ => b'
  | .ended _ => b

/-- Polls branch `i`: it goes on, and is dropped if its limit has come. -/
def poll (T : Transport σ) (o : ClientOptions) (b : Board σ) (i : Nat) : Board σ :=
  match b.tasks[i]? with
  | none => b
  | some t =>
      let b := goOn T o i t b
      match b.tasks[i]? with
      | none => b
      | some t => if t.dropAt.any (· ≤ b.session.now) then drop T i t b else b

def Task.isEnded (t : Task σ) : Bool :=
  match t.place with
  | .ended _ => true
  | _ => false

/-- Whether an ending stops the other branches. -/
def Task.stops (mode : Gather) (t : Task σ) : Bool :=
  match t.place with
  | .ended (.crashed _) => true
  | .ended (.returned (.error _)) => mode = .firstError
  | _ => false

/-- Polls the branches in order, up to one that stops the others. -/
def pass (T : Transport σ) (o : ClientOptions) (mode : Gather) : List Nat → Board σ → Board σ × Bool
  | [], b => (b, false)
  | i :: rest, b =>
      let b := poll T o b i
      if (b.tasks[i]?).any (Task.stops mode) then (b, true) else pass T o mode rest b

/-- Whether a branch holds the connection without having been polled since. -/
def handedOver (b : Board σ) : Bool :=
  match b.holder with
  | none => false
  | some i =>
      match b.tasks[i]? with
      | some { place := .queued _, .. } => true
      | _ => false

/-- When a branch can go on, if time alone can bring that about. -/
def Task.wake (t : Task σ) : Option Instant :=
  let own := match t.place with
    | .pausing u | .resting u => some u
    | .writing _ s => s.ends
    | .reading _ w => some w.ends
    | .stopping s => some s.ends
    | .queued _ | .ended _ => none
  match t.place, own, t.dropAt with
  | .ended _, _, _ => none
  | _, some a, some b => some (min a b)
  | _, a, b => a.or b

/-- The next instant at which a branch can go on. -/
def nextWake (b : Board σ) : Option Instant := (b.tasks.filterMap Task.wake).min?

/-- Drops every branch that has not ended, in order. -/
def dropAll (T : Transport σ) (b : Board σ) : Board σ :=
  (List.range b.tasks.length).foldl
    (fun b i =>
      match b.tasks[i]? with
      | some t => drop T i t b
      | none => b)
    b

def setNow (b : Board σ) (now : Instant) : Board σ :=
  { b with session := { b.session with now := now } }

/-- Runs branches to their end.  The flag is set when the enclosing deadline
dropped some. -/
def run (T : Transport σ) (o : ClientOptions) (mode : Gather) (deadline : Option Instant) :
    Nat → Board σ → Board σ × Bool
  | 0, b => (dropAll T b, true)
  | fuel + 1, b =>
      let (b, stopped) := pass T o mode (List.range b.tasks.length) b
      if stopped || b.tasks.all Task.isEnded then (dropAll T b, false)
      else if deadline.any (· ≤ b.session.now) then (dropAll T b, true)
      else if b.handedOver then run T o mode deadline fuel b
      else
        match b.nextWake, deadline with
        | none, none => (dropAll T b, true)
        | none, some d => (dropAll T (b.setNow d), true)
        | some wake, none => run T o mode deadline fuel (b.setNow wake)
        | some wake, some d =>
            if d < wake then (dropAll T (b.setNow d), true)
            else run T o mode deadline fuel (b.setNow wake)

def ending (t : Task σ) : Ending :=
  match t.place with
  | .ended e => e
  | _ => .cancelled

end Board

/-- The passes that `n` branches can need: each can come to the connection
once, and can wait for a pause, two writes and a response or a stop, and its
limit. -/
def passBound (n : Nat) : Nat := 8 * n + 8

/-- Runs branches side by side.  The endings come in the order of the branches;
`none` if the deadline dropped some. -/
def gather {σ : Type} (T : Transport σ) (o : ClientOptions) (mode : Gather)
    (deadline : Option Instant) (branches : List Branch) (s : Session σ) :
    Session σ × Option (List Ending) :=
  let tasks := branches.map fun b =>
    { place := .pausing (s.now + b.pause), work := b.work, limit := b.limit : Task σ }
  let (b, dropped) := Board.run T o mode deadline (passBound tasks.length) { session := s, tasks }
  (b.session, if dropped then none else some (b.tasks.map Board.ending))

end Conformance
