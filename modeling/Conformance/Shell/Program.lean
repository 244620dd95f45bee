/-
Conformance — the programs that scripts call.

A program is named by its first word.  Most end at once, with some output and a
status; the others leave something to do.
-/
import Conformance.Shell.Expand
import Conformance.Duration

namespace Conformance.Shell

/-- What calling a program comes to. -/
inductive Called where
  | ended (output : List UInt8) (status : Nat)
  | failed (complaint : String) (status : Nat)
  | todo (tasks : List Task)

/-! ## Arguments -/

/-- A decimal number of seconds as a length of time. -/
def seconds? (s : String) : Option Duration :=
  let cs := match s.toList.reverse with
    | 's' :: rest => rest.reverse
    | _ => s.toList
  let whole := cs.takeWhile Char.isDigit
  match cs.dropWhile Char.isDigit with
  | [] => if whole.isEmpty then none else some (Duration.ofSecs (Text.numberIn 10 whole))
  | '.' :: fraction =>
      if fraction.all Char.isDigit then
        let nanos := Text.numberIn 10 ((fraction ++ List.replicate 9 '0').take 9)
        some (Duration.ofSecs (Text.numberIn 10 whole) + nanos)
      else none
  | _ => none

/-- The numbers from `first` on by `step` to `last`. -/
def sequence (first step last : Int) : List Int :=
  if step = 0 then []
  else
    let span := if step > 0 then last - first else first - last
    if span < 0 then []
    else (List.range (span.toNat / step.natAbs + 1)).map fun (i : Nat) => first + i * step

def lines (xs : List String) : List UInt8 := octetsOf (String.join (xs.map (· ++ "\n")))

def seq (args : List String) : Called :=
  let print (first step last : Int) : Called :=
    .ended (lines ((sequence first step last).map toString)) 0
  match args.map String.toInt? with
  | [some last] => print 1 1 last
  | [some first, some last] => print first 1 last
  | [some first, some step, some last] => print first step last
  | _ => .failed "seq: invalid argument" 1

/-! ## Tests -/

/-- Compares two texts as numbers. -/
def compareNumbers (f : Int → Int → Bool) (a b : String) : Bool :=
  match a.toInt?, b.toInt? with
  | some x, some y => f x y
  | _, _ => false

def testUnary (files : Machine.Files) (op a : String) : Bool :=
  let node := match files.resolve a with
    | .ok place => files.node? place
    | .error _ => none
  match op, node with
  | "-n", _ => !a.isEmpty
  | "-z", _ => a.isEmpty
  | "-e", some _ | "-r", some _ => true
  | "-d", some .directory => true
  | "-f", some (.file _ _) => true
  | "-x", some .directory => true
  | "-x", some (.file _ executable) => executable
  | "-s", some (.file content _) => !content.isEmpty
  | _, _ => false

def testBinary (a op b : String) : Bool :=
  match op with
  | "=" | "==" => fitsPattern b a
  | "!=" => !fitsPattern b a
  | "-eq" => compareNumbers (· == ·) a b
  | "-ne" => compareNumbers (· != ·) a b
  | "-lt" => compareNumbers (fun x y => x < y) a b
  | "-le" => compareNumbers (fun x y => x ≤ y) a b
  | "-gt" => compareNumbers (fun x y => x > y) a b
  | "-ge" => compareNumbers (fun x y => x ≥ y) a b
  | _ => false

/-- Whether a test holds. -/
def test (files : Machine.Files) : List String → Bool
  | [] => false
  | "!" :: rest => !test files rest
  | [a] => !a.isEmpty
  | [op, a] => testUnary files op a
  | [a, op, b] => testBinary a op b
  | _ => false

/-! ## Reading a line -/

/-- The options of `read`, and the names behind them. -/
def readOptions (now : Instant) : LineRead → List String → LineRead
  | r, [] => { r with names := if r.names.isEmpty then ["REPLY"] else r.names }
  | r, "-r" :: rest => readOptions now { r with raw := true } rest
  | r, "-t" :: t :: rest => readOptions now { r with deadline := (seconds? t).map (now + ·) } rest
  | r, "-p" :: _ :: rest => readOptions now r rest
  | r, name :: rest => readOptions now { r with names := r.names ++ [name] } rest

/-- Takes away the backslashes in front of characters. -/
def withoutBackslashes : List Char → List Char
  | '\\' :: c :: rest => c :: withoutBackslashes rest
  | '\\' :: [] => []
  | c :: rest => c :: withoutBackslashes rest
  | [] => []

def trimLeft (separators cs : List Char) : List Char := cs.dropWhile (separators.contains ·)

def trimRight (separators cs : List Char) : List Char :=
  (cs.reverse.dropWhile (separators.contains ·)).reverse

/-- Gives a variable each of the first texts, and the last one the rest. -/
def assignLine (separators : List Char) : List String → List Char → Variables → Variables
  | [], _, vs => vs
  | [name], cs, vs => vs.set name (String.ofList (trimRight separators (trimLeft separators cs)))
  | name :: names, cs, vs =>
      let cs := trimLeft separators cs
      let first := cs.takeWhile (!separators.contains ·)
      assignLine separators names (cs.drop first.length) (vs.set name (String.ofList first))

/-- Reads a line into variables. -/
def LineRead.assign (r : LineRead) (line : List UInt8) (vs : Variables) : Variables :=
  let cs := (Utf8.decodeLossy line).toList
  assignLine r.separators r.names (if r.raw then cs else withoutBackslashes cs) vs

/-- What `read` leaves in its variables when there is nothing to read. -/
def LineRead.clear (r : LineRead) (vs : Variables) : Variables := r.assign [] vs

/-! ## Signals -/

/-- The number of a signal, given by a number or a name. -/
def signalOf? (s : String) : Option Nat :=
  let s := if s.startsWith "-" then (s.drop 1).toString else s
  let name := if s.startsWith "SIG" then (s.drop 3).toString else s
  if name = "EXIT" then some 0 else (name.toNat?).or (Stdio.signalNumber? name)

/-- Signals that end no process. -/
def isHarmless (n : Nat) : Bool := n = 0 || n = 17 || n = 18 || n = 23 || n = 28

/-- A signal reaches the shell: `none` if it ends it. -/
def State.signal (s : State) (n : Nat) : Option State :=
  match if n = Stdio.killSignal then none else s.traps.lookup n with
  | some "" => some s
  | some script => some { s with called := s.called ++ [script] }
  | none => if isHarmless n then some s else none

/-- Says what to do on signals. -/
def setTraps (script : Option String) (names : List String) (traps : List (Nat × String)) :
    List (Nat × String) :=
  (names.filterMap signalOf?).foldl
    (fun traps n =>
      let traps := traps.filter (·.1 ≠ n)
      match script with
      | some s => (n, s) :: traps
      | none => traps)
    traps

/-! ## Files and filters -/

/-- The contents of files. -/
def contents (files : Machine.Files) (names : List String) : Called :=
  match names.mapM files.read with
  | .ok cs => .ended cs.flatten 0
  | .error e => .failed ("cat: " ++ e.message) 1

/-- The path of the zeros that never end. -/
def zeros : String := "/dev/zero"

/-- A filter, with the files that it reads in place of its input. -/
def filter (files : Machine.Files) (name : String) (args : List String) : Called :=
  match Filter.ofArguments? name args with
  | none => .failed (name ++ ": invalid argument") 1
  | some (f, []) => .todo [.filter f []]
  | some (f, names) =>
      match if names = [zeros] then f.outputOfZeros? else none with
      | some octets => .ended octets 0
      | none =>
          match names.mapM files.read with
          | .ok cs => .ended (f.output cs.flatten) 0
          | .error e => .failed (name ++ ": " ++ e.message) 1

/-- The place of a directory. -/
def directory? (files : Machine.Files) (path : String) : Option Machine.Place :=
  match files.resolve path with
  | .ok place => match files.node? place with
    | some .directory => some place
    | _ => none
  | .error _ => none

/-- The demonstration server, started with arguments. -/
def startDemo (args : List String) : Called :=
  match DemoServer.Flags.parse args with
  | .ok flags => .todo [.serve { flags }]
  | .error .help => .ended [] 0
  | .error r => .failed "error: invalid arguments" r.exitCode

/-- The name under which the demonstration server is installed. -/
def demoName : String := "mock-mcp-server"

/-- The script in the arguments of a shell, and the arguments of the script. -/
def shellScript (files : Machine.Files) (name : String) :
    List String → Except String (Option String × List String)
  | [] => .ok (none, [name])
  | "-c" :: script :: args => .ok (some script, if args.isEmpty then [name] else args)
  | "-s" :: args => .ok (none, name :: args)
  | path :: args =>
      match files.readText path with
      | .ok script => .ok (some script, path :: args)
      | .error _ => .error (name ++ ": " ++ path ++ ": No such file or directory")

/-- What a shell does with its arguments, or its complaint and status. -/
def startShell (files : Machine.Files) (name : String) (args : List String) :
    Except (String × Nat) (List Task × List String) :=
  match shellScript files name args with
  | .error e => .error (e, 127)
  | .ok (none, arguments) => .ok ([.interpret], arguments)
  | .ok (some script, arguments) =>
      match script? script.toList with
      | some c => .ok ([.run c], arguments)
      | none => .error (name ++ ": syntax error", 2)

/-- The name behind the last slash. -/
def baseName (path : String) : String := ((path.splitOn "/").getLast?).getD path

/-- Programs that stand in files; `none` for a name that no program has. -/
def program (s : State) (now : Instant) (path : String) (args : List String) : Option Called :=
  match baseName path with
  | "true" => some (.ended [] 0)
  | "false" => some (.ended [] 1)
  | "echo" => some (.ended (echo args) 0)
  | "printf" =>
      match args with
      | format :: rest => some (.ended (printf format rest) 0)
      | [] => some (.failed "printf: usage: printf format [arguments]" 2)
  | "seq" => some (seq args)
  | "pwd" => some (.ended (lines [s.value "PWD"]) 0)
  | "cat" =>
      let names := args.filter (!·.startsWith "-")
      some (if names.isEmpty then .todo [.copy] else contents s.files names)
  | "sleep" =>
      some (match args.mapM seconds? with
        | some ds => .todo [.sleepUntil (now + Duration.total ds)]
        | none =>
            if args = ["infinity"] then .todo [.sleepUntil (now + Duration.ofSecs 1000000000)]
            else .failed "sleep: invalid time interval" 1)
  | "test" => some (.ended [] (if test s.files args then 0 else 1))
  | "[" | "[[" => some (.ended [] (if test s.files args.dropLast then 0 else 1))
  | "env" => some (.ended [] 0)
  | name =>
      if Filter.names.contains name then some (filter s.files name args)
      else if name = demoName then some (startDemo args)
      else none

/-- The names of the programs, shells apart. -/
def programNames : List String :=
  ["true", "false", "echo", "printf", "seq", "pwd", "cat", "sleep", "test", "[", "env"]
    ++ Filter.names

def shellNames : List String := ["bash", "sh"]

end Conformance.Shell
