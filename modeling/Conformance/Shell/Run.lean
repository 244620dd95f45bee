/-
Conformance — the steps of a shell.

Each step takes the first task and does it, or puts other tasks in its place.
A task that has to wait stays where it is.
-/
import Conformance.Shell.Program
import Conformance.Text.Lines

namespace Conformance.Shell

/-! ## Redirections -/

/-- The place that a stream number stands for, for output. -/
def Streams.sink (streams : Streams) (n : String) : Sink :=
  match n with
  | "1" => streams.output
  | "2" => streams.errors
  | _ => .nowhere

/-- The place that a path stands for, for output. -/
def Streams.file (streams : Streams) (path : String) : Sink :=
  match path with
  | "/dev/stdout" => streams.output
  | "/dev/stderr" => streams.errors
  | _ => .nowhere

/-- The input that a path stands for. -/
def fileSource (files : Machine.Files) (streams : Streams) (path : String) : Source :=
  if path = "/dev/stdin" then streams.input
  else
    match files.read path with
    | .ok content => .octets content
    | .error _ => .octets []

/-- Follows one redirection. -/
def follow (sub : Substitute) (s : State) (r : Redirect) : State :=
  match r.route with
  | .text w =>
      let (s, t) := expandText sub s w
      { s with streams := { s.streams with input := .octets (octetsOf (t ++ "\n")) } }
  | .copy w =>
      let (s, t) := expandText sub s w
      if r.stream = 0 then
        if t = "0" then s
        else { s with streams := { s.streams with input := .octets [] } }
      else if r.stream = 1 then
        { s with streams := { s.streams with output := s.streams.sink t } }
      else { s with streams := { s.streams with errors := s.streams.sink t } }
  | .file w =>
      let (s, path) := expandText sub s w
      if r.stream = 0 then
        { s with streams := { s.streams with input := fileSource s.files s.streams path } }
      else
        let sink := s.streams.file path
        if r.both then { s with streams := { s.streams with output := sink, errors := sink } }
        else if r.stream = 1 then { s with streams := { s.streams with output := sink } }
        else { s with streams := { s.streams with errors := sink } }

def followAll (sub : Substitute) (s : State) (rs : List Redirect) : State :=
  rs.foldl (follow sub) s

/-! ## Simple commands -/

/-- Puts tasks in front. -/
def State.push (s : State) (tasks : List Task) : State := { s with work := tasks ++ s.work }

/-- Replaces all that is to do by a program. -/
def State.replace (s : State) (tasks : List Task) : State :=
  { s with work := tasks ++ [.finish], traps := s.traps.filter (·.2.isEmpty), called := [] }

/-- A turn that shows what a program wrote. -/
def State.writing (s : State) (inlet : Inlet) (sink : Sink) (octets : List UInt8) : Turn :=
  let (state, effect) := s.emit sink octets
  { state, inlet, effect }

/-- A turn that complains. -/
def State.complain (s : State) (inlet : Inlet) (message : String) (status : Nat) : Turn :=
  { s with status }.writing inlet s.streams.errors (octetsOf (message ++ "\n"))

/-- A turn that does no more than change the state. -/
def State.quiet (s : State) (inlet : Inlet) (status : Nat) : Turn :=
  { state := { s with status }, inlet }

/-- A turn that shows what calling a program comes to. -/
def State.carryOut (s : State) (inlet : Inlet) : Called → Turn
  | .ended output status => { s with status }.writing inlet s.streams.output output
  | .failed message status => s.complain inlet message status
  | .todo tasks => { state := s.push tasks, inlet }

/-- What is said of a name that no program has. -/
def notFound (name : String) : String := "bash: line 1: " ++ name ++ ": command not found"

/-- A program or another shell. -/
def State.callProgram (s : State) (now : Instant) (inlet : Inlet) (name : String)
    (args : List String) : Turn :=
  if shellNames.contains (baseName name) then
    match startShell s.files name args with
    | .error (message, status) => s.complain inlet message status
    | .ok (tasks, arguments) =>
        { state := { s.push (tasks ++ [.endApart s.bindings s.arguments]) with arguments }, inlet }
  else
    match program s now name args with
    | some called => s.carryOut inlet called
    | none => s.complain inlet (notFound name) 127

/-- Gives the process over to a program. -/
def State.callInstead (s : State) (now : Instant) (inlet : Inlet) (name : String)
    (args : List String) : Turn :=
  let s := s.replace []
  if shellNames.contains (baseName name) then
    match startShell s.files name args with
    | .error (message, status) => s.complain inlet message status
    | .ok (tasks, arguments) => { state := { s.push tasks with arguments }, inlet }
  else
    match program s now name args with
    | some called => s.carryOut inlet called
    | none => s.complain inlet (notFound name) 127

/-- Sends a signal to a process; only the shell itself is known. -/
def State.kill (s : State) (inlet : Inlet) (signal target : String) : Turn :=
  match signalOf? signal with
  | none => s.complain inlet "kill: invalid signal specification" 1
  | some n =>
      if target ≠ processNumber then s.complain inlet "kill: no such process" 1
      else
        match s.signal n with
        | some s => s.quiet inlet 0
        | none => { state := s, inlet, effect := .ended (.signal n) }

/-- Changes the directory. -/
def State.changeDirectory (s : State) (inlet : Inlet) (path : String) : Turn :=
  match directory? s.files path with
  | some cwd => { s with files := { s.files with cwd } }.quiet inlet 0
  | none => s.complain inlet ("cd: " ++ path ++ ": No such file or directory") 1

/-- The status that an argument names; without one, the last one. -/
def State.statusOf (s : State) (args : List String) : Nat :=
  match args with
  | [] => s.status
  | a :: _ => (((a.toInt?).getD 2) % 256).toNat

/-- The task behind the current loop body. -/
def State.leaveLoop (s : State) (again : Bool) : State :=
  let s := unwind Task.isLoop s.work s
  if again then s else { s with work := s.work.tail }

/-- A variable that is set as an argument, `name=value`. -/
def assignArgument (vs : Variables) (arg : String) : Variables :=
  match arg.splitOn "=" with
  | name :: rest => if rest.isEmpty then vs else vs.set name ("=".intercalate rest)
  | [] => vs

/-- Calls what has a name: a function, a command of the shell itself, or a
program. -/
def State.call (s : State) (now : Instant) (inlet : Inlet) (assigns : List (String × String))
    (name : String) (args : List String) : Turn :=
  match s.functions.lookup name with
  | some body =>
      { state := { s.push [.run body, .endFunction s.arguments] with
                   arguments := (s.arguments.head?.getD "") :: args }
        inlet }
  | none =>
      match name, args with
      | ":", _ => s.quiet inlet 0
      | "exit", _ => { state := s.exit (s.statusOf args), inlet }
      | "return", _ =>
          { state := { unwind Task.isFunction s.work s with status := s.statusOf args }, inlet }
      | "break", _ => (s.leaveLoop false).quiet inlet 0
      | "continue", _ => (s.leaveLoop true).quiet inlet 0
      | "exec", [] => s.quiet inlet 0
      | "exec", name :: args => s.callInstead now inlet name args
      | "eval", _ =>
          match script? (" ".intercalate args).toList with
          | some c => { state := s.push [.run c], inlet }
          | none => s.complain inlet "bash: eval: syntax error" 2
      | "read", _ =>
          let separators := match assigns.lookup "IFS" with
            | some ifs => ifs.toList
            | none => s.separators
          { state := s.push [.readLine (readOptions now
              { raw := false, separators, names := [], deadline := none } args)]
            inlet }
      | "trap", "-" :: names => { s with traps := setTraps none names s.traps }.quiet inlet 0
      | "trap", script :: names =>
          { s with traps := setTraps (some script) names s.traps }.quiet inlet 0
      | "kill", [target] => s.kill inlet "TERM" target
      | "kill", ["-s", signal, target] => s.kill inlet signal target
      | "kill", [signal, target] => s.kill inlet signal target
      | "cd", [path] => s.changeDirectory inlet path
      | "shift", _ =>
          { s with arguments := s.arguments.take 1 ++ s.arguments.drop 2 }.quiet inlet 0
      | "set", _ | "wait", _ | "ulimit", _ | "umask", _ | "unset", _ | "command", [] =>
          s.quiet inlet 0
      | "export", _ | "local", _ | "declare", _ | "readonly", _ =>
          { s with bindings := args.foldl assignArgument s.bindings }.quiet inlet 0
      | "let", _ =>
          let (v, bindings) := evaluate s.bindings (" ".intercalate args).toList
          { s with bindings }.quiet inlet (if v = 0 then 1 else 0)
      | "command", name :: args => s.callProgram now inlet name args
      | _, _ => s.callProgram now inlet name args

/-- The texts of assignments. -/
def assignTexts (sub : Substitute) : State → List (String × Word) → State × List (String × String)
  | s, [] => (s, [])
  | s, (name, w) :: rest =>
      let (s, t) := expandText sub s w
      let (s, more) := assignTexts sub s rest
      (s, (name, t) :: more)

/-- Whether redirections of a command stay: those of `exec` alone do. -/
def staysRedirected (words : List String) : Bool := words = ["exec"]

/-- A simple command. -/
def State.simple (sub : Substitute) (s : State) (now : Instant) (inlet : Inlet)
    (assigns : List (String × Word)) (words : List Word) (redirects : List Redirect) : Turn :=
  let (s, assigns) := assignTexts sub s assigns
  let (s, words) := expandAll sub s words
  let before := s.streams
  let s := followAll sub s redirects
  match words with
  | [] =>
      let bindings := assigns.foldl (fun vs a => vs.set a.1 a.2) s.bindings
      { s with bindings, streams := before }.quiet inlet 0
  | name :: args =>
      let s := if redirects.isEmpty ∨ staysRedirected words ∨ name = "exec" then s
        else s.push [.restore before]
      s.call now inlet assigns name args

/-! ## Commands -/

/-- A compound command behind its redirections. -/
def State.under (sub : Substitute) (s : State) (redirects : List Redirect) (tasks : List Task) :
    State :=
  let before := s.streams
  let s := followAll sub s redirects
  if redirects.isEmpty then s.push tasks else s.push (tasks ++ [.restore before])

/-- The body of the first case that a text fits. -/
def chosen (sub : Substitute) (s : State) (t : String) : List (List Word × Cmd) → Option Cmd
  | [] => none
  | (ps, body) :: rest =>
      if ps.any fun p => fitsPattern (expandText sub s p).2 t then some body
      else chosen sub s t rest

/-- Starts a command. -/
def State.start (sub : Substitute) (s : State) (now : Instant) (inlet : Inlet) : Cmd → Turn
  | .simple assigns words redirects => s.simple sub now inlet assigns words redirects
  | .compute e =>
      let (v, bindings) := evaluate s.bindings e
      { s with bindings }.quiet inlet (if v = 0 then 1 else 0)
  | .seq cs => { state := s.push (cs.map .run), inlet }
  | .both a b => { state := s.push [.run a, .runIf true b], inlet }
  | .either a b => { state := s.push [.run a, .runIf false b], inlet }
  | .negate a => { state := s.push [.run a, .negate], inlet }
  | .pipe a b =>
      let streams := s.streams
      { state := { s.push [.run (.apart a []), .pipeInto b streams] with
                   streams := { streams with output := .gathered }
                   gathered := [] :: s.gathered }
        inlet }
  | .branch condition yes no => { state := s.push [.run condition, .decide yes no], inlet }
  | .loop inverted condition body =>
      { state := s.push [.run condition, .loopOn inverted condition body], inlet }
  | .each name words body =>
      let (s, values) := expandAll sub s words
      { state := s.push [.eachNext name values body], inlet }
  | .choose w cases =>
      let (s, t) := expandText sub s w
      match chosen sub s t cases with
      | some body => { state := s.push [.run body], inlet }
      | none => s.quiet inlet 0
  | .group body redirects => { state := s.under sub redirects [.run body], inlet }
  | .apart body redirects =>
      { state := s.under sub redirects [.run body, .endApart s.bindings s.arguments], inlet }
  | .define name body =>
      { s with functions := (name, body) :: s.functions.filter (·.1 ≠ name) }.quiet inlet 0
  | .background _ => s.quiet inlet 0

/-! ## Tasks -/

/-- Reads a line into variables, or waits for it. -/
def State.readLine (s : State) (now : Instant) (inlet : Inlet) (r : LineRead) : Turn :=
  let ended (s : State) (inlet : Inlet) (bindings : Variables) (status : Nat) : Turn :=
    { s with bindings, work := s.work.tail }.quiet inlet status
  match s.takeLine inlet with
  | (.line octets whole, s, inlet) =>
      ended s inlet (r.assign octets s.bindings) (if whole then 0 else 1)
  | (.endOfInput, s, inlet) => ended s inlet (r.clear s.bindings) 1
  | (.notYet, s, inlet) =>
      match r.deadline with
      | none => { state := s, inlet, effect := .wait none true }
      | some t =>
          if t ≤ now then ended s inlet s.bindings 142
          else { state := s, inlet, effect := .wait (some t) true }

/-- Copies what input there is. -/
def State.copy (s : State) (inlet : Inlet) : Turn :=
  let (octets, more, s, inlet) := s.takeAll inlet
  if octets.isEmpty then
    if more then { state := s, inlet, effect := .wait none true }
    else { s with work := s.work.tail }.quiet inlet 0
  else s.writing inlet s.streams.output octets

/-- Reads what input there is for a filter, and writes once it has enough. -/
def State.filter (s : State) (inlet : Inlet) (f : Filter) (seen : List UInt8) : Turn :=
  let (octets, more, s, inlet) := s.takeAll inlet
  let seen := seen ++ octets
  if more && !f.isSated seen then
    { state := { s with work := .filter f seen :: s.work.tail }, inlet, effect := .wait none true }
  else
    { s with work := s.work.tail, status := 0 }.writing inlet s.streams.output (f.output seen)

/-- Answers one line as the demonstration server. -/
def State.serve (s : State) (inlet : Inlet) (demo : DemoServer.State) : Turn :=
  let ended (s : State) (inlet : Inlet) (status : Nat) : Turn :=
    { s with work := s.work.tail }.quiet inlet status
  match s.takeLine inlet with
  | (.notYet, s, inlet) => { state := s, inlet, effect := .wait none true }
  | (.endOfInput, s, inlet) => ended s inlet 0
  | (.line octets whole, s, inlet) =>
      match Utf8.decode? (if whole then Text.chomp octets else octets) with
      | none => ended s inlet DemoServer.badInputStatus
      | some line =>
          match DemoServer.answerLine s.files.isThere demo line with
          | (_, none) => ended s inlet DemoServer.exitStatus
          | (demo, some out) =>
              { s with work := .serve demo :: s.work.tail }.writing inlet s.streams.output
                (lines out)

/-- Runs the commands of one line of input. -/
def State.interpret (s : State) (inlet : Inlet) : Turn :=
  match s.takeLine inlet with
  | (.notYet, s, inlet) => { state := s, inlet, effect := .wait none true }
  | (.endOfInput, s, inlet) => { state := { s with work := s.work.tail }, inlet }
  | (.line octets _, s, inlet) =>
      match script? (Utf8.decodeLossy octets).toList with
      | some c => { state := s.push [.run c], inlet }
      | none => s.complain inlet "bash: syntax error" 2

/-- Does the first task; `rest` are the others. -/
def State.perform (sub : Substitute) (s : State) (now : Instant) (inlet : Inlet) (rest : List Task) :
    Task → Turn
  | .run c => { s with work := rest }.start sub now inlet c
  | .runIf succeeded c =>
      let s := { s with work := rest }
      { state := if (s.status = 0) = succeeded then s.push [.run c] else s, inlet }
  | .negate => { s with work := rest }.quiet inlet (if s.status = 0 then 1 else 0)
  | .decide yes no =>
      let chosen := if s.status = 0 then yes else no
      { state := { s with work := .run chosen :: rest, status := 0 }, inlet }
  | .loopOn inverted condition body =>
      if (s.status = 0) = !inverted then
        { state := { s with work := .run body :: .loopAgain inverted condition body :: rest }, inlet }
      else { s with work := rest }.quiet inlet 0
  | .loopAgain inverted condition body =>
      { state := { s with work := .run condition :: .loopOn inverted condition body :: rest }, inlet }
  | .eachNext _ [] _ => { state := { s with work := rest }, inlet }
  | .eachNext name (v :: values) body =>
      { state := { s with
          work := .run body :: .eachNext name values body :: rest
          bindings := s.bindings.set name v }
        inlet }
  | .restore streams => { state := { s with work := rest, streams }, inlet }
  | .endApart bindings arguments =>
      { state := { s with work := rest, bindings, arguments }, inlet }
  | .endFunction arguments => { state := { s with work := rest, arguments }, inlet }
  | .pipeInto c streams =>
      let octets := s.gathered.head?.getD []
      { state := { s with
          work := .run (.apart c []) :: .restore streams :: rest
          streams := { streams with input := .octets octets }
          gathered := s.gathered.tail }
        inlet }
  | .sleepUntil t =>
      if t ≤ now then { s with work := rest }.quiet inlet 0
      else { state := s, inlet, effect := .wait (some t) false }
  | .readLine r => s.readLine now inlet r
  | .copy => s.copy inlet
  | .filter f seen => s.filter inlet f seen
  | .serve demo => s.serve inlet demo
  | .interpret => s.interpret inlet
  | .finish => { state := { s with work := [] }, inlet }

/-- The number under which a script for the end is kept. -/
def exitTrap : Nat := 0

/-- One step. -/
def State.stepWith (sub : Substitute) (s : State) (now : Instant) (inlet : Inlet) : Turn :=
  match s.called, s.work with
  | script :: called, work =>
      if (work.head?).any Task.isProgram then
        match work with
        | t :: rest => s.perform sub now inlet rest t
        | [] => { state := s, inlet }
      else
        match script? script.toList with
        | some c => { state := { s with called, work := .run c :: work }, inlet }
        | none => { state := { s with called }, inlet }
  | [], [] =>
      match s.traps.lookup exitTrap with
      | some script =>
          let traps := s.traps.filter (·.1 ≠ exitTrap)
          { state := { s with traps, called := [script] }, inlet }
      | none => { state := s, inlet, effect := .ended (.code s.status) }
  | [], t :: rest => s.perform sub now inlet rest t

/-! ## What is still held -/

/-- The streams that are in use, or will be again. -/
def State.allStreams (s : State) : List Streams :=
  s.streams :: s.work.filterMap fun t => match t with
    | .restore streams | .pipeInto _ streams => some streams
    | _ => none

/-- Whether something can still be written to the output. -/
def State.holdsOutput (s : State) : Bool :=
  s.allStreams.any fun x => x.output = .output ∨ x.errors = .output

/-- Whether something can still be written to the error output. -/
def State.holdsErrors (s : State) : Bool :=
  s.allStreams.any fun x => x.output = .errors ∨ x.errors = .errors

/-- Whether the input can still be read. -/
def State.holdsInput (s : State) : Bool := s.allStreams.any fun x => x.input = .input

/-! ## Output of scripts inside words -/

/-- Takes steps until the script has ended or waits, and gathers its output. -/
def gather (step : State → Inlet → Turn) : Nat → State → List UInt8 → List UInt8
  | 0, _, out => out
  | fuel + 1, s, out =>
      let turn := step s { closed := true }
      match turn.effect with
      | .write octets => gather step fuel turn.state (out ++ octets)
      | .silent | .complain _ => gather step fuel turn.state out
      | .wait _ _ | .ended _ => out

/-- The steps that a script inside a word may take. -/
def substituteSteps : Nat := 10000

/-- One step; scripts inside words may hold others to the depth given. -/
def State.stepWithin : Nat → State → Instant → Inlet → Turn
  | 0 => fun s now inlet => s.stepWith (fun _ _ => "") now inlet
  | depth + 1 => fun s now inlet =>
      let sub : Substitute := fun s script =>
        match script? script with
        | none => ""
        | some c =>
            let inner := { s with work := [.run c], streams := {}, traps := [], called := [] }
            Utf8.decodeLossy (gather (fun s i => State.stepWithin depth s now i) substituteSteps
              inner [])
      s.stepWith sub now inlet

/-- Scripts inside words are followed to this depth. -/
def substituteDepth : Nat := 4

def State.step (s : State) (now : Instant) (inlet : Inlet) : Turn :=
  s.stepWithin substituteDepth now inlet

end Conformance.Shell
