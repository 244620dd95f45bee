/-
Conformance — specimens of tests.

One test for each way in which a test can end.  They belong to no suite; a
runner is tried on them.
-/
import Conformance.Suite.Basic

namespace Conformance.Suite.Specimen

def passes (_ : String) : Check Unit := do
  let n := (← Check.listTools).length
  Check.ensure (n = 3) ("expected 3 tools, got " ++ toString n)

def breaksDown (message : String → String) (project : String) : Check Unit :=
  ExceptT.lift (.crash (message project))

/-- The message of a breakdown that left no text. -/
def noTextMessage : String := "non-string panic payload"

def callsFixture (project : String) : Check Unit := do
  let _ ← ((Check.callTool project .null).within ("calling " ++ project)).within "outer"

def callsDie (_ : String) : Check Unit := do
  let _ ← Check.callTool "die" (.obj [])

def shutsDown (_ : String) : Check Unit := do
  let _ ← Check.perform (.shutdown (Duration.ofMillis 7))

def wrappedHandshake (_ : String) : Check Unit :=
  Check.fail ((Failure.ofError (.handshake (.readTimeout (Duration.ofMillis 1500)))).within
    "wrapped")

def tests : List TestCase := [
  { name := "passes", body := passes },
  { name := "bails", body := fun project => Check.fail (.ofText project) },
  { name := "panics_str", body := breaksDown fun _ => "kaboom" },
  { name := "panics_string", body := breaksDown fun project => "kaboom in " ++ project },
  { name := "panics_other", body := breaksDown fun _ => noTextMessage },
  { name := "hangs", body := fun _ => Check.sleep (Duration.ofSecs 86400) },
  { name := "sleeps_250", body := fun _ => Check.sleep (Duration.ofMillis 250) },
  { name := "calls_fixture", body := callsFixture },
  { name := "calls_die", body := callsDie },
  { name := "shuts_down", body := shutsDown },
  { name := "wrapped_handshake", body := wrappedHandshake }]

end Conformance.Suite.Specimen
