/-
Conformance — a client from event to event.

Between two events a client is what it knows of its connection and what the
operation that holds it asks of the transport.  The events are the start of an
operation, the outcome of what was asked, and the drop of the operation where
it stands.  The transport chooses the outcomes, the users of the client choose
the rest: what holds after every run of events holds for every server, every
order of operations and every moment of cancellation.

`Client.Turn` lists what an event can do, one clause a case, with the
connection written out.  `turn_of_step` says that this is all; what is proved
of runs later goes by these clauses and does not open the operations again.
-/
import Conformance.Client.Connection
import Conformance.Proofs.Wait.Judgement

namespace Conformance

/-! ## Events -/

/-- A client between two events; no operation holds it when there is no phase. -/
structure Client where
  conn : Connection := {}
  phase : Option Phase := none

inductive Event where
  /-- An operation takes the connection. -/
  | start (op : Operation)
  /-- The write under way has ended. -/
  | written (r : Except ClientError Unit)
  /-- An item is read in the wait for a response. -/
  | heard (item : Except ClientError Incoming)
  /-- The deadline of the wait. -/
  | expired
  | stopped (r : Except ClientError Unit)
  /-- A question is answered. -/
  | told (reply : Reply)
  /-- The operation is dropped where it stands. -/
  | dropped

namespace Client

/-- Where an operation that got so far leaves the client, and what it gives if
it has ended. -/
def settle : Connection × Progress → Client × Option Outcome
  | (c, .next p) => ({ conn := c, phase := some p }, none)
  | (c, .ended r) => ({ conn := c }, some r)

/-- What an event does; nothing if it cannot happen. -/
def step (o : ClientOptions) (s : Client) (e : Event) : Option (Client × Option Outcome) :=
  match s.phase, e with
  | none, .start op => some (settle (s.conn.begin o op))
  | some (.write why _), .written r => some (settle (s.conn.written why r))
  | some (.await purpose id), .heard item =>
      match judge id s.conn.abandoned o.requestTimeout item with
      | none => some (s, none)
      | some v => some (settle (s.conn.settled purpose v))
  | some (.await purpose _), .expired =>
      some (settle (s.conn.settled purpose (.refuse (.readTimeout o.requestTimeout))))
  | some (.stop _), .stopped r => some (settle (s.conn.stopped r))
  | some (.ask _), .told reply => some ({ s with phase := none }, some (.ok reply))
  | some _, .dropped => some ({ s with phase := none }, none)
  | _, _ => none

end Client

/-! ## What operations do to a connection -/

/-- How an error of an exchange is reported. -/
def Purpose.wrap : Purpose → ClientError → ClientError
  | .opening, e => .handshake e
  | .answer, e => e
  | .listing, e => e

/-- The state in which an exchange is made. -/
def Purpose.state : Purpose → ClientState
  | .opening => .opening
  | .answer => .ready
  | .listing => .ready

namespace Connection

/-- The connection with the next request under way. -/
def asking (c : Connection) (purpose : Purpose) : Connection :=
  { c with
    lastId := c.lastId + 1, inFlight := some (c.lastId + 1),
    abandoned := c.inFlight.or c.abandoned, state := purpose.state }

/-- The state after an exchange has failed. -/
def failedState (c : Connection) (purpose : Purpose) (e : ClientError) : ClientState :=
  if e.isFatal || c.state = .disconnected then .disconnected
  else
    match purpose with
    | .opening => .created
    | .answer => c.state
    | .listing => c.state

/-- What an operation that cannot go on gives at once. -/
def declines (c : Connection) : Operation → Option Outcome
  | .connect =>
      match c.state with
      | .ready => some (.ok .done)
      | .disconnected =>
          some (.error (.handshake (.transportClosed "client is disconnected")))
      | .created => none
      | .opening => none
  | .request _ _ => c.refusal.map .error
  | .unprintable _ => c.refusal.map .error
  | .listTools => c.refusal.map .error
  | .notify _ => c.refusal.map .error
  | .shutdown _ => none
  | .ask _ => none

theorem note_eq (c : Connection) (e : ClientError) :
    c.note e = { c with state := if e.isFatal then .disconnected else c.state } := by
  rw [note]
  split <;> rfl

theorem fail_eq (c : Connection) (purpose : Purpose) (e : ClientError) :
    c.fail purpose e =
      ({ c with state := c.failedState purpose e }, .ended (.error (purpose.wrap e))) := by
  cases purpose <;> cases he : e.isFatal <;> cases hs : c.state <;>
    simp [fail, note_eq, failedState, Purpose.wrap, he, hs]

theorem refusal_eq_none_iff {c : Connection} : c.refusal = none ↔ c.state = .ready := by
  rw [refusal]
  cases c.state <;> simp

/-- The response to the opening request, if it opens nothing. -/
inductive OpenFault (r : Wire.Response) : ClientError → Prop
  | rpc {x : Wire.RpcError} : r.error = some x → OpenFault r (.rpc x)
  | malformed {x : Wire.ShapeError} : r.error = none →
      Wire.OpenResult.decode (r.result.getD .null) = .error x →
      OpenFault r
        (.malformed ("invalid initialize result: " ++ x.message) (r.result.getD .null).print)

/-- The response to the opening request, if it opens the session. -/
def Opens (r : Wire.Response) (info : Wire.OpenResult) : Prop :=
  r.error = none ∧ Wire.OpenResult.decode (r.result.getD .null) = .ok info

/-- The line that tells the server that the session is open. -/
def openedLine : String := Wire.Notification.opened.toJson.print

theorem opened_cases (c : Connection) (r : Wire.Response) :
    (∃ e, OpenFault r e ∧ c.opened r = c.fail .opening e) ∨
      ∃ info, Opens r info ∧ c.opened r = (c, .next (.write (.announcement info) openedLine)) := by
  rw [opened]
  cases he : r.error with
  | some x => exact Or.inl ⟨_, .rpc he, rfl⟩
  | none =>
      cases hd : Wire.OpenResult.decode (r.result.getD .null) with
      | error x => exact Or.inl ⟨_, .malformed he hd, by simp only [hd]⟩
      | ok info => exact Or.inr ⟨info, ⟨he, hd⟩, by simp only [hd, openedLine]⟩

end Connection

/-- The response to a listing that names no tools is an error itself, or malformed. -/
theorem toolsOf_error {r : Wire.Response} {e : ClientError} (h : toolsOf r = .error e) :
    (∃ x, e = .rpc x) ∨ ∃ cause raw, e = .malformed cause raw := by
  rw [toolsOf] at h
  split at h
  · cases h
    exact .inl ⟨_, rfl⟩
  · split at h
    · cases h
    · cases h
    · split at h
      · cases h
      · cases h
        exact .inr ⟨_, _, rfl⟩

/-- A request, its id apart. -/
structure Inquiry where
  purpose : Purpose
  method : String
  params : Option Json

/-- The line of an inquiry that has been given its id. -/
def Inquiry.line (q : Inquiry) (id : Nat) : String :=
  (Wire.Request.toJson { id, method := q.method, params := q.params }).print

/-- The inquiry that opens the session. -/
def openInquiry (o : ClientOptions) : Inquiry :=
  { purpose := .opening, method := Wire.openMethod,
    params := some (Wire.OpenParams.of o.info).toJson }

/-- The inquiry of an operation that makes one. -/
def Operation.asks (o : ClientOptions) : Operation → Option Inquiry
  | .connect => some (openInquiry o)
  | .request method params => some { purpose := .answer, method, params }
  | .listTools =>
      some { purpose := .listing, method := Wire.listMethod, params := some (.obj []) }
  | .unprintable _ => none
  | .notify _ => none
  | .shutdown _ => none
  | .ask _ => none

/-! ## All that an event can do -/

namespace Client

open Connection

/-- `Turn o s e s' r`: event `e` takes client `s` to `s'`; `r` is what the
operation gives if that ends it. -/
inductive Turn (o : ClientOptions) (s : Client) : Event → Client → Option Outcome → Prop
  /-- Nothing to do, or refused. -/
  | declined {op : Operation} {r : Outcome} : s.phase = none → s.conn.declines op = some r →
      Turn o s (.start op) s (some r)
  /-- The id is spent on a request that is never written. -/
  | unprintable {cause : String} : s.phase = none → s.conn.state = .ready →
      Turn o s (.start (.unprintable cause)) { conn := s.conn.spend }
        (some (.error (.serialize cause)))
  | asks {op : Operation} {q : Inquiry} : s.phase = none → s.conn.declines op = none →
      op.asks o = some q →
      Turn o s (.start op)
        { conn := s.conn.asking q.purpose
          phase := some
            (.write (.request q.purpose (s.conn.lastId + 1)) (q.line (s.conn.lastId + 1))) }
        none
  | notifies {n : Wire.Notification} : s.phase = none → s.conn.state = .ready →
      Turn o s (.start (.notify n))
        { conn := s.conn, phase := some (.write .notification n.toJson.print) } none
  | shutsDown {grace : Duration} : s.phase = none →
      Turn o s (.start (.shutdown grace))
        { conn := { s.conn with state := .disconnected }, phase := some (.stop grace) } none
  | questions {q : Query} : s.phase = none →
      Turn o s (.start (.ask q)) { conn := s.conn, phase := some (.ask q) } none
  | sent {purpose : Purpose} {id : Nat} {line : String} {u : Unit} :
      s.phase = some (.write (.request purpose id) line) →
      Turn o s (.written (.ok u)) { conn := s.conn, phase := some (.await purpose id) } none
  | unsent {purpose : Purpose} {id : Nat} {line : String} {e : ClientError} :
      s.phase = some (.write (.request purpose id) line) →
      Turn o s (.written (.error e))
        { conn := { s.conn with inFlight := none, state := s.conn.failedState purpose e } }
        (some (.error (purpose.wrap e)))
  | announced {info : Wire.OpenResult} {line : String} {u : Unit} :
      s.phase = some (.write (.announcement info) line) →
      Turn o s (.written (.ok u)) { conn := { s.conn with state := .ready, server := some info } }
        (some (.ok .done))
  | unannounced {info : Wire.OpenResult} {line : String} {e : ClientError} :
      s.phase = some (.write (.announcement info) line) →
      Turn o s (.written (.error e))
        { conn := { s.conn with state := s.conn.failedState .opening e } }
        (some (.error (.handshake e)))
  | notified {line : String} {u : Unit} : s.phase = some (.write .notification line) →
      Turn o s (.written (.ok u)) { conn := s.conn } (some (.ok .done))
  | unnotified {line : String} {e : ClientError} : s.phase = some (.write .notification line) →
      Turn o s (.written (.error e))
        { conn := { s.conn with state := if e.isFatal then .disconnected else s.conn.state } }
        (some (.error e))
  | passes {purpose : Purpose} {id : Nat} {item : Except ClientError Incoming} :
      s.phase = some (.await purpose id) → Silent id s.conn.abandoned item →
      Turn o s (.heard item) s none
  | answered {item : Except ClientError Incoming} {r : Wire.Response} :
      s.phase = some (.await .answer r.id) → responseOf item = some r → r.misshape = none →
      Turn o s (.heard item) { conn := { s.conn with inFlight := none } }
        (some (.ok (.response r)))
  | listed {item : Except ClientError Incoming} {r : Wire.Response} :
      s.phase = some (.await .listing r.id) → responseOf item = some r → r.misshape = none →
      Turn o s (.heard item) { conn := { s.conn with inFlight := none } }
        (some ((toolsOf r).map .tools))
  | opens {item : Except ClientError Incoming} {r : Wire.Response} {info : Wire.OpenResult} :
      s.phase = some (.await .opening r.id) → responseOf item = some r → r.misshape = none →
      Opens r info →
      Turn o s (.heard item)
        { conn := { s.conn with inFlight := none }
          phase := some (.write (.announcement info) openedLine) } none
  | unopened {item : Except ClientError Incoming} {r : Wire.Response} {e : ClientError} :
      s.phase = some (.await .opening r.id) → responseOf item = some r → r.misshape = none →
      OpenFault r e →
      Turn o s (.heard item)
        { conn := { s.conn with inFlight := none, state := s.conn.failedState .opening e } }
        (some (.error (.handshake e)))
  | misshapen {purpose : Purpose} {item : Except ClientError Incoming} {r : Wire.Response}
      {m : Wire.Response.Misshape} {raw : String} :
      s.phase = some (.await purpose r.id) → responseOf item = some r → r.misshape = some m →
      Turn o s (.heard item)
        { conn :=
            { s.conn with
              inFlight := none, state := s.conn.failedState purpose (.malformed m.text raw) } }
        (some (.error (purpose.wrap (.malformed m.text raw))))
  | refuses {purpose : Purpose} {id : Nat} {item : Except ClientError Incoming}
      {e : ClientError} : s.phase = some (.await purpose id) →
      Decides id s.conn.abandoned o.requestTimeout item (.refuse e) →
      Turn o s (.heard item) { conn := { s.conn with state := s.conn.failedState purpose e } }
        (some (.error (purpose.wrap e)))
  | expires {purpose : Purpose} {id : Nat} : s.phase = some (.await purpose id) →
      Turn o s .expired
        { conn :=
            { s.conn with
              state := s.conn.failedState purpose (.readTimeout o.requestTimeout) } }
        (some (.error (purpose.wrap (.readTimeout o.requestTimeout))))
  | stopped {grace : Duration} {r : Except ClientError Unit} : s.phase = some (.stop grace) →
      Turn o s (.stopped r) { conn := s.conn } (some (r.map fun _ => .done))
  | told {q : Query} {reply : Reply} : s.phase = some (.ask q) →
      Turn o s (.told reply) { conn := s.conn } (some (.ok reply))
  | dropped {p : Phase} : s.phase = some p → Turn o s .dropped { conn := s.conn } none

variable {o : ClientOptions} {c : Connection}

theorem declines_of_refusal {op : Operation} {e : ClientError} (h : c.refusal = some e)
    (hop : c.declines op = c.refusal.map .error) :
    Turn o { conn := c } (.start op) { conn := c } (some (.error e)) :=
  .declined rfl (by rw [hop, h]; rfl)

theorem asking_of_ready {purpose : Purpose} (hs : c.state = .ready)
    (hp : purpose.state = .ready) :
    c.asking purpose =
      { c with
        lastId := c.lastId + 1, inFlight := some (c.lastId + 1),
        abandoned := c.inFlight.or c.abandoned } := by
  cases c
  cases hs
  simp only [asking, hp]

theorem turn_of_begin (op : Operation) :
    Turn o { conn := c } (.start op) (settle (c.begin o op)).1 (settle (c.begin o op)).2 := by
  cases op with
  | connect =>
      cases hs : c.state with
      | ready =>
          simp only [begin, hs]
          exact .declined rfl (by simp only [declines, hs])
      | disconnected =>
          simp only [begin, hs]
          exact .declined rfl (by simp only [declines, hs])
      | created | opening =>
          have hd : c.declines .connect = none := by simp only [declines, hs]
          have hq : Operation.connect.asks o = some (openInquiry o) := rfl
          simp only [begin, hs]
          exact .asks rfl hd hq
  | request method params =>
      cases hr : c.refusal with
      | some e =>
          simp only [begin, hr]
          exact declines_of_refusal hr rfl
      | none =>
          have hd : c.declines (.request method params) = none := by rw [declines, hr]; rfl
          have hq : (Operation.request method params).asks o
              = some { purpose := .answer, method, params } := rfl
          simp only [begin, hr, start, ← asking_of_ready (refusal_eq_none_iff.mp hr)
            (show Purpose.state .answer = .ready from rfl)]
          exact .asks rfl hd hq
  | unprintable cause =>
      cases hr : c.refusal with
      | some e =>
          simp only [begin, hr]
          exact declines_of_refusal hr rfl
      | none =>
          simp only [begin, hr]
          exact .unprintable rfl (refusal_eq_none_iff.mp hr)
  | listTools =>
      cases hr : c.refusal with
      | some e =>
          simp only [begin, hr]
          exact declines_of_refusal hr rfl
      | none =>
          have hd : c.declines .listTools = none := by rw [declines, hr]; rfl
          have hq : Operation.listTools.asks o = some
              { purpose := .listing, method := Wire.listMethod, params := some (.obj []) } := rfl
          simp only [begin, hr, start, ← asking_of_ready (refusal_eq_none_iff.mp hr)
            (show Purpose.state .listing = .ready from rfl)]
          exact .asks rfl hd hq
  | notify n =>
      cases hr : c.refusal with
      | some e =>
          simp only [begin, hr]
          exact declines_of_refusal hr rfl
      | none =>
          simp only [begin, hr]
          exact .notifies rfl (refusal_eq_none_iff.mp hr)
  | shutdown grace => exact .shutsDown rfl
  | ask q => exact .questions rfl

theorem turn_of_written (why : Writing) (line : String) (r : Except ClientError Unit) :
    Turn o { conn := c, phase := some (.write why line) } (.written r)
      (settle (c.written why r)).1 (settle (c.written why r)).2 := by
  cases why with
  | request purpose id =>
      cases r with
      | ok u => exact .sent rfl
      | error e =>
          simp only [written, fail_eq]
          exact .unsent rfl
  | announcement info =>
      cases r with
      | ok u => exact .announced rfl
      | error e =>
          simp only [written, fail_eq]
          exact .unannounced rfl
  | notification =>
      cases r with
      | ok u => exact .notified rfl
      | error e =>
          simp only [written, note_eq]
          exact .unnotified rfl

theorem turn_of_verdict {purpose : Purpose} {id : Nat} {item : Except ClientError Incoming}
    {v : Verdict} (h : Decides id c.abandoned o.requestTimeout item v) :
    Turn o { conn := c, phase := some (.await purpose id) } (.heard item)
      (settle (c.settled purpose v)).1 (settle (c.settled purpose v)).2 := by
  cases v with
  | refuse e =>
      simp only [settled, fail_eq]
      exact .refuses rfl h
  | misshapen e =>
      cases h with
      | misshapen hr hid hm =>
          subst hid
          simp only [settled, fail_eq]
          exact .misshapen rfl hr hm
  | answer r =>
      cases h with
      | answer hr hid hs =>
          subst hid
          cases purpose with
          | answer => exact .answered rfl hr hs
          | listing => exact .listed rfl hr hs
          | opening =>
              simp only [settled]
              rcases opened_cases { c with inFlight := none } r with ⟨e, he, hop⟩ | ⟨info, hi, hop⟩
              · rw [hop, fail_eq]
                exact .unopened rfl hr hs he
              · rw [hop]
                exact .opens rfl hr hs hi

/-- The clauses are all there is. -/
theorem turn_of_step {s s' : Client} {e : Event} {r : Option Outcome}
    (h : s.step o e = some (s', r)) : Turn o s e s' r := by
  obtain ⟨c, phase⟩ := s
  cases phase with
  | none =>
      cases e with
      | start op =>
          have hturn := turn_of_begin (o := o) (c := c) op
          simp only [step, Option.some.injEq] at h
          rw [h] at hturn
          exact hturn
      | _ => exact nomatch h
  | some p =>
      cases e with
      | dropped =>
          cases p <;>
            · cases h
              exact .dropped rfl
      | start op => cases p <;> exact nomatch h
      | written w =>
          cases p with
          | write why line =>
              have hturn := turn_of_written (o := o) (c := c) why line w
              simp only [step, Option.some.injEq] at h
              rw [h] at hturn
              exact hturn
          | _ => exact nomatch h
      | heard item =>
          cases p with
          | await purpose id =>
              cases hj : judge id c.abandoned o.requestTimeout item with
              | none =>
                  simp only [step, hj] at h
                  cases h
                  exact .passes rfl (judge_eq_none_iff.mp hj)
              | some v =>
                  simp only [step, hj, Option.some.injEq] at h
                  have hturn : Turn o ⟨c, some (.await purpose id)⟩ (.heard item)
                      (settle (c.settled purpose v)).1 (settle (c.settled purpose v)).2 :=
                    turn_of_verdict (judge_eq_some_iff.mp hj)
                  rw [h] at hturn
                  exact hturn
          | _ => exact nomatch h
      | expired =>
          cases p with
          | await purpose id =>
              simp only [step, settled, fail_eq] at h
              cases h
              exact .expires rfl
          | _ => exact nomatch h
      | stopped w =>
          cases p with
          | stop grace =>
              cases h
              exact .stopped rfl
          | _ => exact nomatch h
      | told reply =>
          cases p with
          | ask q =>
              cases h
              exact .told rfl
          | _ => exact nomatch h

theorem step_heard {s : Client} {purpose : Purpose} {id : Nat}
    (hp : s.phase = some (.await purpose id)) (item : Except ClientError Incoming) :
    s.step o (.heard item) =
      match judge id s.conn.abandoned o.requestTimeout item with
      | none => some (s, none)
      | some v => some (settle (s.conn.settled purpose v)) := by
  simp only [step, hp]

/-- An operation starts when none holds the connection. -/
theorem free_of_start {s s' : Client} {op : Operation} {r : Option Outcome}
    (h : Turn o s (.start op) s' r) : s.phase = none := by
  cases h with
  | declined hp | unprintable hp | asks hp | notifies hp | shutsDown hp | questions hp => exact hp

end Client

end Conformance
