/-
Conformance — the flags of the demonstration server.

Each makes the server fail in one of the ways a real one might.
-/
import Conformance.CommandLine.Grammar

namespace Conformance.DemoServer

structure Flags where
  /-- Refuses to open a session. -/
  handshakeError : Bool := false
  /-- Answers calls of this tool with a line that is no JSON. -/
  garbageOn : Option String := none
  /-- Never answers calls of this tool. -/
  hangOn : Option String := none
  /-- Ends when this tool is called. -/
  exitOn : Option String := none
  /-- Sends a notification before every response. -/
  notify : Bool := false
  /-- Answers a listing of the tools with another id. -/
  wrongId : Bool := false
  /-- Reports every request on its error output. -/
  stderr : Bool := false
deriving DecidableEq

open CommandLine in
/-- The command line of the server. -/
def level : Level :=
  { options := [
      { long := "handshake-error", kind := .flag },
      { long := "garbage-on", kind := .value .text false false },
      { long := "hang-on", kind := .value .text false false },
      { long := "exit-on", kind := .value .text false false },
      { long := "notify", kind := .flag },
      { long := "wrong-id", kind := .flag },
      { long := "stderr", kind := .flag },
      { long := "help", short := some 'h', kind := .help }] }

open CommandLine in
/-- The flags of a command line, without the program's name. -/
def Flags.parse (args : List String) : Except Refusal Flags := do
  let found ← close level (← readLevel level args {}).reading
  return { handshakeError := found.has "handshake-error"
           garbageOn := found.value? "garbage-on"
           hangOn := found.value? "hang-on"
           exitOn := found.value? "exit-on"
           notify := found.has "notify"
           wrongId := found.has "wrong-id"
           stderr := found.has "stderr" }

end Conformance.DemoServer
