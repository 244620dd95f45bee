/-
Conformance — a client put through a list of steps.

A step is one act, or several side by side.  After each step the state of the
client, whether its server is there, and the id given last are looked at; the
looks are operations like any other.
-/
import Conformance.Client.Schedule

namespace Conformance

/-- What a client can be asked to do in a trial. -/
inductive Act where
  | connect
  | listTools
  | callTool (name : String) (arguments : Json)
  | call (method : String) (params : Option Json)
  | notify (n : Wire.Notification)
  | shutdown (grace : Duration)
  | server
  | stderr
  /-- Whether the session is open. -/
  | isOpen
  | rest (d : Duration)

/-- What an act gave. -/
inductive ActResult where
  | done
  | tools (ts : List Wire.Tool)
  | response (r : Wire.Response)
  | server (s : Option Wire.ServerInfo)
  | stderr (lines : List String)
  | isOpen (b : Bool)
  | failed (e : ClientError)
  | cancelled
  | crashed (message : String)

namespace Act

def work : Act → Work
  | connect => .use .connect
  | listTools => .use .listTools
  | callTool name arguments => .use (.callTool name arguments)
  | call method params => .use (.request method params)
  | notify n => .use (.notify n)
  | shutdown grace => .use (.shutdown grace)
  | server => .use (.ask .server)
  | stderr => .use (.ask .stderr)
  | isOpen => .use (.ask .state)
  | rest d => .rest d

end Act

/-- Reads the ending of an act. -/
def ActResult.of : Ending → ActResult
  | .cancelled => .cancelled
  | .crashed message => .crashed message
  | .returned (.error e) => .failed e
  | .returned (.ok reply) =>
      match reply with
      | .response r => .response r
      | .tools ts => .tools ts
      | .server s => .server s
      | .stderr lines => .stderr lines
      | .state s => .isOpen (s = .ready)
      | .connected b => .isOpen b
      | .lastId _ | .done => .done

/-- An act with a pause before it and a limit. -/
structure TimedAct where
  pause : Duration := 0
  limit : Option Duration := none
  act : Act

def TimedAct.branch (a : TimedAct) : Branch :=
  { pause := a.pause, limit := a.limit, work := a.act.work }

/-- One step of a trial. -/
inductive TrialStep where
  | one (a : TimedAct)
  | together (acts : List TimedAct)

def TrialStep.acts : TrialStep → List TimedAct
  | one a => [a]
  | together acts => acts

/-- What was seen after a step. -/
structure Seen (σ : Type) where
  step : TrialStep
  results : List ActResult
  state : ClientState
  connected : Bool
  lastId : Nat
  session : Session σ

variable {σ : Type}

/-- Asks a question when no one else uses the client. -/
def inquire (T : Transport σ) (o : ClientOptions) (q : Query) (s : Session σ) :
    Session σ × Option Reply :=
  match gather T o .all none [{ work := .use (.ask q) }] s with
  | (s, some [.returned (.ok r)]) => (s, some r)
  | (s, _) => (s, none)

/-- One step, and what is seen after it. -/
def trialStep (T : Transport σ) (o : ClientOptions) (step : TrialStep) (s : Session σ) :
    Seen σ :=
  let acts := step.acts
  let (s, endings) := gather T o .all none (acts.map TimedAct.branch) s
  let results := (endings.getD []).map ActResult.of
  let (s, state) := inquire T o .state s
  let (s, connected) := inquire T o .connected s
  let (s, lastId) := inquire T o .lastId s
  { step, results, session := s
    state := match state with | some (.state x) => x | _ => s.conn.state
    connected := match connected with | some (.connected b) => b | _ => false
    lastId := match lastId with | some (.lastId n) => n | _ => s.conn.lastId }

/-- Runs the steps one after the other. -/
def trial (T : Transport σ) (o : ClientOptions) : List TrialStep → Session σ → List (Seen σ)
  | [], _ => []
  | step :: rest, s =>
      let seen := trialStep T o step s
      seen :: trial T o rest seen.session

end Conformance
