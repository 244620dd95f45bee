/-
Conformance — the stress suite.

Heavy and concurrent use.  Calls at once share one client and line up for it,
so the server sees back-to-back traffic.
-/
import Conformance.Suite.Basic

namespace Conformance.Suite.Stress

/-- Requires every outcome to be good; `n` counts from the first. -/
def allGood : Nat → List Outcome → Check Unit
  | _, [] => pure ()
  | n, .error e :: _ =>
      Check.fail ((Failure.ofError e).within ("concurrent call " ++ toString n ++ " failed"))
  | n, .ok _ :: rest => allGood (n + 1) rest

def concurrentToolCalls (_ : String) : Check Unit := do
  let _ ← Check.listTools
  allGood 0 (← Check.together .all (List.replicate 10 .listTools))

/-- Lists the tools `n` times, with a pause after each. -/
def listRepeatedly (pause : Duration) : Nat → Check Unit
  | 0 => pure ()
  | n + 1 => do
      let _ ← Check.listTools
      if pause != 0 then Check.sleep pause
      listRepeatedly pause n

def rapidSequentialCalls (_ : String) : Check Unit := do
  let elapsed ← timed (listRepeatedly 0 20)
  Check.ensure (elapsed < Duration.ofSecs 10)
    ("too slow: " ++ Duration.fixedSeconds 2 elapsed ++ "s for 20 calls")

def concurrentDifferentTools (project : String) : Check Unit := do
  let outcomes ← Check.together .all [
    .listTools,
    .callTool "scan_dependencies" (projectArgument project),
    .callTool "analyze_class" (classArguments "test.Test" project)]
  -- Only the listing has to succeed.
  match outcomes with
  | .error e :: _ =>
      Check.fail ((Failure.ofError e).within "list_tools failed alongside other calls")
  | _ => return ()

def memoryStability (_ : String) : Check Unit := listRepeatedly (Duration.ofMillis 10) 50

/-- Lists the tools every tenth of a second until five seconds have passed
since `start`; after fifty rounds they have. -/
def listUntilDone (start : Instant) : Nat → Check Unit
  | 0 => pure ()
  | rounds + 1 => do
      let now ← Check.now
      if now - start < Duration.ofSecs 5 then
        let _ ← Check.listTools
        Check.sleep (Duration.ofMillis 100)
        listUntilDone start rounds

def longRunningSession (_ : String) : Check Unit := do
  listUntilDone (← Check.now) 50
  let tools ← Check.listTools
  Check.ensure (!tools.isEmpty) "server stopped advertising tools"

def burstTraffic (_ : String) : Check Unit :=
  forEach [0, 1, 2] fun burst => do
    (listAtOnce 15).within ("burst " ++ toString (burst : Nat) ++ " failed")
    Check.sleep (Duration.ofMillis 500)

/-- A check whose failure does not matter. -/
def attempt {α : Type} (c : Check α) : Check Unit :=
  ExceptT.mk do
    let _ ← c.run
    return .ok ()

def errorRecovery (_ : String) : Check Unit := do
  forEach (List.range 5) fun _ =>
    attempt (callHandled "decompile_class" (classArguments "" "/nonexistent"))
  let tools ← Check.listTools
  Check.ensure (!tools.isEmpty) "server did not recover after invalid calls"

def suite : Suite :=
  { key := "stress"
    title := "Stress Tests"
    tests := [
      { name := "concurrent_tool_calls", body := concurrentToolCalls },
      { name := "rapid_sequential_calls", body := rapidSequentialCalls },
      { name := "concurrent_different_tools", body := concurrentDifferentTools },
      { name := "memory_stability", body := memoryStability },
      { name := "long_running_session", body := longRunningSession },
      { name := "burst_traffic", body := burstTraffic },
      { name := "error_recovery", body := errorRecovery }] }

end Conformance.Suite.Stress
