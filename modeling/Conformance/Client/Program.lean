/-
Conformance — programs that use a client.

A program is a tree of what it does next: end, break down, sleep, look at the
clock, or run branches side by side and go on with their endings.  It runs on
the clock of a session, under a deadline at which it is dropped.  A test is a
program that can also fail.
-/
import Conformance.Client.Schedule

namespace Conformance

inductive Program (α : Type) where
  | done (a : α)
  | crash (message : String)
  | sleep (d : Duration) (next : Program α)
  | clock (next : Instant → Program α)
  | gather (mode : Gather) (branches : List Branch) (next : List Ending → Program α)

namespace Program

def bind {α β : Type} : Program α → (α → Program β) → Program β
  | done a, f => f a
  | crash m, _ => crash m
  | sleep d next, f => sleep d (next.bind f)
  | clock next, f => clock fun t => (next t).bind f
  | gather mode branches next, f => gather mode branches fun es => (next es).bind f

instance : Monad Program where
  pure := done
  bind := bind

/-- How a program ends. -/
inductive End (α : Type) where
  | done (a : α)
  | crashed (message : String)
  /-- Dropped at the deadline. -/
  | dropped

/-- The message of the branch that broke down, if one did. -/
def crashIn : List Ending → Option String
  | [] => none
  | .crashed m :: _ => some m
  | _ :: rest => crashIn rest

variable {σ α : Type}

/-- Runs a program. -/
def run (T : Transport σ) (o : ClientOptions) (deadline : Option Instant) :
    Program α → Session σ → Session σ × End α
  | done a, s => (s, .done a)
  | crash m, s => (s, .crashed m)
  | sleep d next, s =>
      let wake := s.now + d
      match deadline with
      | some t =>
          if t < wake then ({ s with now := max s.now t }, .dropped)
          else next.run T o deadline { s with now := wake }
      | none => next.run T o deadline { s with now := wake }
  | clock next, s => (next s.now).run T o deadline s
  | gather mode branches next, s =>
      match Conformance.gather T o mode deadline branches s with
      | (s, none) => (s, .dropped)
      | (s, some endings) =>
          match crashIn endings with
          | some m => (s, .crashed m)
          | none => (next endings).run T o deadline s

end Program

/-- A test, or a part of one: a program that may fail. -/
abbrev Check (α : Type) := ExceptT Failure Program α

namespace Check

def fail {α : Type} (f : Failure) : Check α := throw f

/-- Fails unless a condition holds. -/
def ensure (b : Bool) (message : String) : Check Unit :=
  if b then pure () else fail (.ofText message)

/-- Puts a description in front of a failure. -/
def within {α : Type} (description : String) (c : Check α) : Check α :=
  ExceptT.mk do
    match ← c.run with
    | .ok a => return .ok a
    | .error f => return .error (f.within description)

def sleep (d : Duration) : Check Unit := ExceptT.lift (.sleep d (.done ()))

def now : Check Instant := ExceptT.lift (.clock .done)

/-- Runs operations side by side; each gives its outcome. -/
def together (mode : Gather) (ops : List Operation) : Check (List Outcome) :=
  ExceptT.lift <| .gather mode (ops.map fun op => { work := .use op }) fun endings =>
    .done (endings.filterMap fun e =>
      match e with
      | .returned o => some o
      | _ => none)

/-- Turns an error of the client into a failure. -/
def ofExcept {α : Type} : Except ClientError α → Check α
  | .ok a => pure a
  | .error e => fail (.ofError e)

/-- One operation. -/
def perform (op : Operation) : Check Reply := do
  match ← together .all [op] with
  | [o] => ofExcept o
  | _ => return .done

/-- The response to a request. -/
def response (op : Operation) : Check Wire.Response := do
  match ← perform op with
  | .response r => return r
  | _ => return { id := 0 }

def listTools : Check (List Wire.Tool) := do
  match ← perform .listTools with
  | .tools ts => return ts
  | _ => return []

def callTool (name : String) (arguments : Json) : Check Wire.Response :=
  response (.callTool name arguments)

def isConnected : Check Bool := do
  match ← perform (.ask .connected) with
  | .connected b => return b
  | _ => return false

def state : Check ClientState := do
  match ← perform (.ask .state) with
  | .state s => return s
  | _ => return .created

end Check

end Conformance
