/-
Conformance — running suites.

A runner takes one client through suites, test after test.  A test that fails,
breaks down or overruns its time is recorded as failed, and the next one
starts.  Only the loss of the server ends a suite before its last test; the
partial suite is recorded all the same.
-/
import Conformance.Report.Summary
import Conformance.Suite.Catalog

namespace Conformance

structure RunnerOptions where
  /-- The most that one test may take. -/
  testTimeout : Duration := Duration.ofSecs 120
  /-- The pause after the session was opened. -/
  settle : Duration := Duration.ofMillis 1000
  /-- What the server is given to go by itself. -/
  grace : Duration := Duration.ofSecs 5

/-- A client with its suites so far and what was printed. -/
structure Runner (σ : Type) where
  session : Session σ
  results : List SuiteResult := []
  printed : String := ""

/-- What a runner needs to know besides its client. -/
structure RunPlan (σ : Type) where
  transport : Transport σ
  client : ClientOptions
  runner : RunnerOptions
  /-- The directory handed to the tests. -/
  project : String

namespace Runner

variable {σ : Type}

/-- The details of a failure. -/
def details (f : Failure) : Json :=
  match f.cause with
  | .inl e => .obj [("fatal", .bool e.isFatal), ("kind", .str e.kind)]
  | .inr _ => .obj [("kind", .str "assertion")]

/-- The result of a test that ended after some time. -/
def resultOf (name : String) (timeout duration : Duration) :
    Program.End (Except Failure Unit) → TestResult
  | .done (.ok ()) => .pass name duration
  | .done (.error f) => .fail name duration f.message (some (details f))
  | .crashed message =>
      .fail name duration ("test panicked: " ++ message) (some (.obj [("kind", .str "panic")]))
  | .dropped =>
      .fail name duration ("test timed out after " ++ Duration.text timeout)
        (some (.obj [("kind", .str "test_timeout"),
          ("timeout_secs", .num (.float (Duration.seconds timeout)))]))

/-- Runs one test. -/
def runTest (p : RunPlan σ) (t : TestCase) (s : Session σ) : Session σ × TestResult :=
  let (s', ending) :=
    (t.body p.project).run.run p.transport p.client (some (s.now + p.runner.testTimeout)) s
  (s', resultOf t.name p.runner.testTimeout (s'.now - s.now) ending)

/-- The lines printed for a result. -/
def resultText (r : TestResult) : String :=
  Summary.mark r.passed ++ " " ++ r.name ++ " (" ++ Duration.fixedSeconds 2 r.duration ++ "s)\n"
    ++ (match r.error with
      | some e => "  Error: " ++ e ++ "\n"
      | none => "")

/-- Whether the server is there. -/
def isConnected (p : RunPlan σ) (s : Session σ) : Session σ × Bool :=
  match (Check.isConnected.run).run p.transport p.client none s with
  | (s, .done (.ok b)) => (s, b)
  | (s, _) => (s, false)

/-- What a run of tests left: the results, what was printed, and the test after
which the server was gone. -/
structure TestRun (σ : Type) where
  session : Session σ
  results : List TestResult
  printed : String
  lost : Option String

/-- Runs tests in order, until one of them loses the server. -/
def runTests (p : RunPlan σ) : List TestCase → Session σ → TestRun σ
  | [], session => { session, results := [], printed := "", lost := none }
  | t :: rest, s =>
      let (s, r) := runTest p t s
      match isConnected p s with
      | (s, false) => { session := s, results := [r], printed := resultText r, lost := some t.name }
      | (s, true) =>
          let more := runTests p rest s
          { more with results := r :: more.results, printed := resultText r ++ more.printed }

/-- The heading of a suite. -/
def headingText (name : String) : String :=
  "\n" ++ Summary.rule ++ "\nRunning Suite: " ++ name ++ "\n" ++ Summary.rule ++ "\n"

/-- What is printed at the end of a suite. -/
def closingText (r : SuiteResult) : String :=
  "\nSuite Results: " ++ toString r.passedCount ++ "/" ++ toString r.tests.length ++ " passed\n"
    ++ "Duration: " ++ Duration.fixedSeconds 2 r.duration ++ "s\n"

/-- Runs a suite and records it. -/
def runSuite (p : RunPlan σ) (name : String) (tests : List TestCase) (r : Runner σ) :
    Runner σ × Except RunError SuiteResult :=
  let run := runTests p tests r.session
  let result : SuiteResult :=
    { name, tests := run.results, duration := run.session.now - r.session.now }
  let r' : Runner σ :=
    { session := run.session
      results := r.results ++ [result]
      printed := r.printed ++ headingText name ++ run.printed ++ closingText result }
  match run.lost with
  | none => (r', .ok result)
  | some test =>
      let tail := p.transport.stderr run.session.now run.session.wire
      (r', .error (.connectionLost name test tail))

/-- Opens the session. -/
def connect (T : Transport σ) (o : ClientOptions) (s : Session σ) :
    Session σ × Program.End (Except ClientError Unit) :=
  match gather T o .all none [{ work := .use .connect }] s with
  | (s, some [.returned (.ok _)]) => (s, .done (.ok ()))
  | (s, some [.returned (.error e)]) => (s, .done (.error e))
  | (s, some [.crashed m]) => (s, .crashed m)
  | (s, _) => (s, .dropped)

/-- Opens the session and lets the server settle. -/
def start (p : RunPlan σ) (s : Session σ) : Session σ × Program.End (Except RunError (Runner σ)) :=
  match connect p.transport p.client s with
  | (s, .done (.ok _)) =>
      let s := { s with now := s.now + p.runner.settle }
      (s, .done (.ok { session := s }))
  | (s, .done (.error e)) => (s, .done (.error (.setup e)))
  | (s, .crashed m) => (s, .crashed m)
  | (s, .dropped) => (s, .dropped)

/-- Stops the server. -/
def finish (p : RunPlan σ) (r : Runner σ) : Runner σ :=
  let (s, _) := ((Check.perform (.shutdown p.runner.grace)).run).run p.transport p.client none
    r.session
  { r with session := s }

end Runner

end Conformance
