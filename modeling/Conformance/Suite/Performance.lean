/-
Conformance — the performance suite.

How long listings and calls may take.  Means are taken in doubles, in the
order of the samples.
-/
import Conformance.Suite.Basic

namespace Conformance.Suite.Performance

/-- The text of a list of tools must stay below this many octets. -/
def maxListSize : Nat := 10 * 1024

/-- The noise that the check for degradation tolerates. -/
def noiseFloor : Duration := Duration.ofMillis 5

/-- The mean in seconds. -/
def meanSeconds (samples : List Duration) : Float :=
  if samples.isEmpty then 0
  else
    (samples.foldl (fun sum d => sum + Duration.seconds d) 0)
      / samples.length.toUInt64.toFloat

/-- Whether recent calls take twice as long as the first ones, and some more. -/
def degraded (first recent : Float) : Bool :=
  recent >= first * 2.0 + Duration.seconds noiseFloor

/-- Times `n` listings, one after the other. -/
def timeListings : Nat → Check (List Duration)
  | 0 => return []
  | n + 1 => do
      let d ← timed Check.listTools
      let rest ← timeListings n
      return d :: rest

/-- Requires a length of time to stay below a limit. -/
def below (limit elapsed : Duration) (what : String) : Check Unit :=
  Check.ensure (elapsed < limit) (what ++ Duration.fixedSeconds 3 elapsed ++ "s")

def listResponseTime (_ : String) : Check Unit := do
  let elapsed ← timed Check.listTools
  below (Duration.ofSecs 2) elapsed "list_tools too slow: "

def listConsistency (_ : String) : Check Unit := do
  let samples ← timeListings 10
  let mean := meanSeconds samples
  Check.ensure (mean < 1.0) ("average time too high: " ++ Decimal.fixed 3 mean ++ "s")
  below (Duration.ofSecs 2) (samples.foldl max 0) "max time too high: "

def listLength (_ : String) : Check Unit := do
  let count := (← Check.listTools).length
  Check.ensure (count ≥ 3) ("expected at least 3 tools, got " ++ toString count)
  Check.ensure (count < 100) ("unreasonable number of tools: " ++ toString count)

def listSize (_ : String) : Check Unit := do
  let size := (Wire.toolsJson (← Check.listTools)).print.utf8ByteSize
  Check.ensure (size < maxListSize)
    ("tool list too large: " ++ Decimal.fixed 1 (size.toUInt64.toFloat / 1024.0) ++ "KB")

def concurrentOverhead (_ : String) : Check Unit := do
  let single ← timed Check.listTools
  let concurrent ← timed (listAtOnce 5)
  -- The calls line up for one connection, so five of them may take five times as long.
  let budget := single * 5 * 2 + Duration.ofMillis 100
  Check.ensure (concurrent < budget)
    ("5 queued calls took " ++ Duration.fixedSeconds 3 concurrent ++ "s, budget "
      ++ Duration.fixedSeconds 3 budget ++ "s")

def warmStart (_ : String) : Check Unit := do
  let _ ← timeListings 5
  let mean := meanSeconds (← timeListings 10)
  Check.ensure (mean < 0.5) ("warm calls too slow: " ++ Decimal.fixed 3 mean ++ "s")

def scanTime (_ : String) : Check Unit := do
  let elapsed ← timed (callHandled "scan_dependencies" (projectArgument "/tmp"))
  below (Duration.ofSecs 5) elapsed "scan too slow: "

def errorTime (_ : String) : Check Unit := do
  let elapsed ← timed (callHandled "decompile_class" (classArguments "" ""))
  below (Duration.ofSecs 1) elapsed "error response too slow: "

/-- The last `n` of some samples. -/
def lastSamples (n : Nat) (samples : List Duration) : List Duration :=
  samples.drop (samples.length - n)

/-- Lists the tools in rounds of twenty; after each, the last twenty are
compared with the first. -/
def watchRounds : Nat → List Duration → Check Unit
  | 0, _ => pure ()
  | rounds + 1, samples => do
      let samples := samples ++ (← timeListings 20)
      let first := meanSeconds (samples.take 20)
      let recent := meanSeconds (lastSamples 20 samples)
      Check.ensure (!degraded first recent)
        ("performance degraded: first=" ++ Decimal.fixed 4 first ++ "s, recent="
          ++ Decimal.fixed 4 recent ++ "s")
      watchRounds rounds samples

def noSlowLeaks (_ : String) : Check Unit := watchRounds 5 []

def suite : Suite :=
  { key := "performance"
    title := "Performance"
    tests := [
      { name := "list_tools_response_time", body := listResponseTime },
      { name := "list_tools_consistency", body := listConsistency },
      { name := "tool_list_size", body := listLength },
      { name := "tool_response_size", body := listSize },
      { name := "concurrent_overhead", body := concurrentOverhead },
      { name := "warm_start_performance", body := warmStart },
      { name := "scan_performance", body := scanTime },
      { name := "error_response_speed", body := errorTime },
      { name := "no_slow_leaks", body := noSlowLeaks }] }

end Conformance.Suite.Performance
