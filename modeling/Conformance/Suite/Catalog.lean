/-
Conformance — the catalog of suites.

The suites in the order in which they run by default, found by their keys.
-/
import Conformance.Suite.Smoke
import Conformance.Suite.Stress
import Conformance.Suite.EdgeCases
import Conformance.Suite.BattlePrep
import Conformance.Suite.Performance

namespace Conformance.Suite

/-- Every suite, in default order. -/
def all : List Suite :=
  [Smoke.suite, Stress.suite, EdgeCases.suite, BattlePrep.suite, Performance.suite]

def keys : List String := all.map Suite.key

/-- The suite with a key. -/
def find? (key : String) : Option Suite := all.find? (·.key == key)

def testNames (s : Suite) : List String := s.tests.map TestCase.name

/-- The suites with their tests, one line each. -/
def listing : String :=
  String.join (all.map fun s =>
    s.key ++ " (" ++ s.title ++ ", " ++ toString s.tests.length ++ " tests)\n"
      ++ String.join (s.testNames.map fun n => "  " ++ n ++ "\n"))

end Conformance.Suite
