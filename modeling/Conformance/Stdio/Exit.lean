/-
Conformance — how a process ends.
-/
import Conformance.Duration

namespace Conformance.Stdio

/-- A process ends with a code of its own, or by a signal. -/
inductive ExitStatus where
  | code (n : Nat)
  | signal (n : Nat)
deriving DecidableEq, Repr

/-- The names of the signals, from number 1 on. -/
def signalNames : List String :=
  ["HUP", "INT", "QUIT", "ILL", "TRAP", "ABRT", "BUS", "FPE", "KILL", "USR1", "SEGV", "USR2",
    "PIPE", "ALRM", "TERM", "STKFLT", "CHLD", "CONT", "STOP", "TSTP", "TTIN", "TTOU", "URG",
    "XCPU", "XFSZ", "VTALRM", "PROF", "WINCH", "IO", "PWR", "SYS"]

/-- The name of a signal. -/
def signalName? (n : Nat) : Option String :=
  match n with
  | 0 => none
  | n + 1 => signalNames[n]?

/-- The number of a signal, by its name. -/
def signalNumber? (name : String) : Option Nat :=
  (signalNames.findIdx? (· == name)).map (· + 1)

/-- The signal that asks a process to end. -/
def termSignal : Nat := 15

/-- The signal that ends a process. -/
def killSignal : Nat := 9

/-- The signal of a write to a pipe that no one reads. -/
def pipeSignal : Nat := 13

def ExitStatus.text : ExitStatus → String
  | code n => "exit status: " ++ toString n
  | signal n =>
      "signal: " ++ toString n ++ (match signalName? n with
        | some name => " (SIG" ++ name ++ ")"
        | none => "")

end Conformance.Stdio
