/-
Conformance — the summary of a run.

One line for each suite, in order, then the totals.  The sum of the durations
is exact; it is out of range once it reaches `2^64` seconds.
-/
import Conformance.Report.Result

namespace Conformance

/-- One suite of a summary. -/
structure SuiteLine where
  name : String
  passed : Nat
  total : Nat
  duration : Duration
deriving DecidableEq

structure Summary where
  suites : List SuiteLine
  totalPassed : Nat
  totalFailed : Nat
  totalDuration : Duration

namespace Summary

/-- The line of a suite. -/
def line (s : SuiteResult) : SuiteLine :=
  { name := s.name, passed := s.passedCount, total := s.tests.length, duration := s.duration }

/-- A count of each suite, taken together. -/
def count (f : SuiteResult → Nat) (results : List SuiteResult) : Nat :=
  results.foldr (fun r n => f r + n) 0

/-- The first length of time that has no place in a summary. -/
def durationLimit : Duration := Duration.ofSecs Word.bound

/-- What is reported when the durations sum up to too much. -/
def overflowText : String := "overflow in iter::sum over durations"

/-- The summary of suites; `none` when their durations sum up to too much. -/
def of? (results : List SuiteResult) : Option Summary :=
  (Duration.sum? (results.map SuiteResult.duration)).map fun total =>
    { suites := results.map line
      totalPassed := count SuiteResult.passedCount results
      totalFailed := count SuiteResult.failedCount results
      totalDuration := total }

def passed (s : Summary) : Bool := s.totalFailed == 0

def exitCode (s : Summary) : Nat := if s.passed then 0 else 1

/-! ## Text -/

/-- The line of sixty equal signs around a heading. -/
def rule : String := String.ofList (List.replicate 60 '=')

/-- The mark of a success or of a failure. -/
def mark (good : Bool) : String := if good then "✓" else "✗"

/-- The text of such a line. -/
def lineText (s : SuiteLine) : String :=
  mark (s.passed == s.total) ++ " " ++ s.name ++ ": " ++ toString s.passed ++ "/"
    ++ toString s.total ++ " passed (" ++ Duration.fixedSeconds 2 s.duration ++ "s)\n"

def render (s : Summary) : String :=
  "\n" ++ rule ++ "\nTEST SUMMARY\n" ++ rule ++ "\n"
    ++ String.join (s.suites.map lineText)
    ++ "\nTotal: " ++ toString s.totalPassed ++ "/" ++ toString (s.totalPassed + s.totalFailed)
    ++ " tests passed\n"
    ++ "Total Duration: " ++ Duration.fixedSeconds 2 s.totalDuration ++ "s\n"
    ++ (if s.totalFailed > 0 then "\n" ++ toString s.totalFailed ++ " tests FAILED!\n" else "")

end Summary

end Conformance
