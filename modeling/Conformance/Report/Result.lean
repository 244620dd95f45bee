/-
Conformance — results of tests and suites.

A suite is its tests in order; its counts are read off them.  A failed test
always has a message.
-/
import Conformance.Client.Error

namespace Conformance

/-- The outcome of one test: `error` is the message of a failure. -/
structure TestResult where
  name : String
  duration : Duration
  error : Option String := none
  details : Option Json := none

namespace TestResult

def pass (name : String) (duration : Duration) : TestResult := { name, duration }

/-- What a failure without a message is reported as. -/
def noMessage : String := "test failed without a message"

def fail (name : String) (duration : Duration) (error : String) (details : Option Json) :
    TestResult :=
  { name, duration, error := some (if error.isEmpty then noMessage else error), details }

def passed (t : TestResult) : Bool := t.error.isNone

end TestResult

/-- The outcomes of the tests of one suite, in order. -/
structure SuiteResult where
  name : String
  tests : List TestResult
  duration : Duration

namespace SuiteResult

def passedCount (s : SuiteResult) : Nat := s.tests.countP TestResult.passed

def failedCount (s : SuiteResult) : Nat := s.tests.length - s.passedCount

def passed (s : SuiteResult) : Bool := s.failedCount == 0

end SuiteResult

end Conformance
