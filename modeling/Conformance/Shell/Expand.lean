/-
Conformance — what words come to.

A word comes to any number of texts: what stands for something else is put in,
and is split at blanks unless it is quoted.
-/
import Conformance.Shell.State

namespace Conformance.Shell

/-- Runs a script for its output. -/
abbrev Substitute := State → List Char → String

/-- Texts under way. -/
structure Fields where
  ready : List String := []
  /-- The last one, if it has begun. -/
  current : Option String := none

namespace Fields

def add (f : Fields) (s : String) : Fields := { f with current := some (f.current.getD "" ++ s) }

/-- Ends the last text. -/
def flush (f : Fields) : Fields :=
  match f.current with
  | some s => { ready := f.ready ++ [s], current := none }
  | none => f

/-- Adds a text that is split at separators. -/
def addSplit (separators : List Char) (f : Fields) (s : String) : Fields :=
  s.toList.foldl
    (fun f c => if separators.contains c then f.flush else f.add (String.singleton c)) f

/-- Adds texts, each on its own. -/
def addEach (f : Fields) : List String → Fields
  | [] => f
  | [s] => f.add s
  | s :: rest => addEach (f.add s).flush rest

def toList (f : Fields) : List String := f.flush.ready

end Fields

/-- The number of the process, as scripts see it. -/
def processNumber : String := "4242"

/-- The value of a name. -/
def State.value (s : State) (name : String) : String :=
  match name with
  | "?" => toString s.status
  | "$" | "BASHPID" => processNumber
  | "#" => toString (s.arguments.length - 1)
  | "@" | "*" => " ".intercalate (s.arguments.drop 1)
  | "!" => ""
  | "PWD" => "/" ++ "/".intercalate s.files.cwd
  | _ =>
      match name.toNat? with
      | some n => (s.arguments[n]?).getD ""
      | none => s.bindings.value name

/-- Drops the newlines at the end. -/
def withoutLastNewlines (s : String) : String :=
  String.ofList (s.toList.reverse.dropWhile (· == '\n')).reverse

def defaultSeparators : List Char := [' ', '\t', '\n']

/-- The characters at which texts are split. -/
def State.separators (s : State) : List Char :=
  match s.bindings.lookup "IFS" with
  | some ifs => ifs.toList
  | none => defaultSeparators

/-- Adds one part of a word. -/
def addPart (sub : Substitute) (s : State) (f : Fields) : Part → State × Fields
  | .literal t quoted =>
      (s, if t.isEmpty && !quoted then f else f.add (String.ofList t))
  | .variable "@" true => (s, f.addEach (s.arguments.drop 1))
  | .variable name quoted =>
      let v := s.value name
      (s, if quoted then f.add v else f.addSplit s.separators v)
  | .output script quoted =>
      let v := withoutLastNewlines (sub s script)
      (s, if quoted then f.add v else f.addSplit s.separators v)
  | .value e =>
      let (v, bindings) := evaluate s.bindings e
      ({ s with bindings }, f.add (toString v))
  | .range first _ => (s, f.add (toString first))

/-- The numbers of a range, in its direction. -/
def numbers (first last : Int) : List Int :=
  let n := (last - first).natAbs + 1
  (List.range n).map fun (i : Nat) => if first ≤ last then first + i else first - i

/-- The words that a word with ranges stands for. -/
def unfoldRanges : Word → List Word
  | [] => [[]]
  | .range first last :: rest =>
      let tails := unfoldRanges rest
      (numbers first last).flatMap fun n =>
        tails.map (.literal (toString n).toList false :: ·)
  | p :: rest => (unfoldRanges rest).map (p :: ·)

/-- Adds the parts of a word. -/
def addParts (sub : Substitute) : State → Fields → Word → State × Fields
  | s, f, [] => (s, f)
  | s, f, p :: rest =>
      let (s, f) := addPart sub s f p
      addParts sub s f rest

/-- The texts of words. -/
def expand (sub : Substitute) : State → List Word → State × List String
  | s, [] => (s, [])
  | s, w :: rest =>
      let (s, f) := addParts sub s {} w
      let (s, more) := expand sub s rest
      (s, f.toList ++ more)

/-- The texts of words with ranges. -/
def expandAll (sub : Substitute) (s : State) (ws : List Word) : State × List String :=
  expand sub s (ws.flatMap unfoldRanges)

/-- The text of a word, never split. -/
def expandText (sub : Substitute) (s : State) (w : Word) : State × String :=
  let quoted := w.map fun p => match p with
    | .variable "@" _ => .variable "*" true
    | .variable name _ => .variable name true
    | .output script _ => .output script true
    | p => p
  let (s, f) := addParts sub s {} quoted
  (s, " ".intercalate f.toList)

/-! ## Patterns -/

/-- Whether a text fits a pattern with `*` and `?`. -/
def fits : Nat → List Char → List Char → Bool
  | 0, _, _ => false
  | _, [], s => s.isEmpty
  | fuel + 1, '*' :: p, s =>
      fits fuel p s || (match s with
        | [] => false
        | _ :: s => fits fuel ('*' :: p) s)
  | fuel + 1, '?' :: p, _ :: s => fits fuel p s
  | fuel + 1, c :: p, d :: s => c == d && fits fuel p s
  | _, _ :: _, [] => false

def fitsPattern (pattern text : String) : Bool :=
  fits (pattern.length + text.length + 1) pattern.toList text.toList

end Conformance.Shell
