/-
Conformance — files.

A machine has a tree of directories and files, given by the places at which
they stand; the root is always there.  A path is a list of steps from the root
or from the working directory.  Each step but the last must come to a
directory; `.` stays, and `..` goes up, from the root nowhere.
-/
import Conformance.Text.Utf8

namespace Conformance.Machine

/-- A place: the names on the way from the root. -/
abbrev Place := List String

inductive Node where
  | directory
  | file (content : List UInt8) (executable : Bool)

/-- Why the system refuses. -/
inductive SystemError where
  | notFound
  | notPermitted
  | notDirectory
  | isDirectory
  | nameTooLong
  | brokenPipe
  /-- A text for the system with a zero in it. -/
  | zeroInText
  /-- A file that should be a text, and is none. -/
  | notText
deriving DecidableEq, Repr

namespace SystemError

/-- The text of an error that has a number. -/
def numbered (text : String) (number : Nat) : String :=
  text ++ " (os error " ++ toString number ++ ")"

def message : SystemError → String
  | notFound => numbered "No such file or directory" 2
  | notPermitted => numbered "Permission denied" 13
  | notDirectory => numbered "Not a directory" 20
  | isDirectory => numbered "Is a directory" 21
  | nameTooLong => numbered "File name too long" 36
  | brokenPipe => numbered "Broken pipe" 32
  | zeroInText => "nul byte found in provided data"
  | notText => "stream did not contain valid UTF-8"

end SystemError

/-- The files of a machine, with the working directory. -/
structure Files where
  nodes : List (Place × Node) := []
  cwd : Place := []

namespace Files

/-- What stands at a place. -/
def node? (fs : Files) (p : Place) : Option Node :=
  if p.isEmpty then some .directory else fs.nodes.lookup p

/-- A name has at most so many octets. -/
def nameLimit : Nat := 255

/-- A path has fewer octets than this. -/
def pathLimit : Nat := 4096

/-- Takes steps from a place. -/
def walk (fs : Files) : Place → List String → Except SystemError Place
  | p, [] => .ok p
  | p, s :: rest =>
      match fs.node? p with
      | some .directory =>
          if s = "" ∨ s = "." then walk fs p rest
          else if s = ".." then walk fs p.dropLast rest
          else if nameLimit < s.utf8ByteSize then .error .nameTooLong
          else if (fs.node? (p ++ [s])).isSome then walk fs (p ++ [s]) rest
          else .error .notFound
      | some (.file _ _) => .error .notDirectory
      | none => .error .notFound

/-- The steps of a path. -/
def steps (path : String) : List String := path.splitOn "/"

/-- The place that a path leads to. -/
def resolve (fs : Files) (path : String) : Except SystemError Place :=
  if path.isEmpty then .error .notFound
  else if path.toList.contains '\x00' then .error .zeroInText
  else if pathLimit ≤ path.utf8ByteSize then .error .nameTooLong
  else
    match steps path with
    | "" :: rest => fs.walk [] rest
    | all => fs.walk fs.cwd all

/-- Whether a path leads anywhere. -/
def isThere (fs : Files) (path : String) : Bool :=
  match fs.resolve path with
  | .ok _ => true
  | .error _ => false

/-- The content of a file. -/
def read (fs : Files) (path : String) : Except SystemError (List UInt8) := do
  match fs.node? (← fs.resolve path) with
  | some (.file content _) => return content
  | some .directory => throw .isDirectory
  | none => throw .notFound

/-- The content of a file as a text. -/
def readText (fs : Files) (path : String) : Except SystemError String := do
  match Utf8.decode? (← fs.read path) with
  | some s => return s
  | none => throw .notText

/-- One step from a place, which need not be there. -/
def step (p : Place) (s : String) : Place :=
  if s = "" ∨ s = "." then p else if s = ".." then p.dropLast else p ++ [s]

/-- Where a path leads, whether or not anything stands there. -/
def place (fs : Files) (path : String) : Place :=
  (steps path).foldl step (if path.startsWith "/" then [] else fs.cwd)

/-- Puts a file at a path, and directories above it; what stands there stays. -/
def add (fs : Files) (path : String) (content : List UInt8) : Files :=
  let p := fs.place path
  let above := (List.range p.length).map fun n => (p.take n, Node.directory)
  { fs with nodes := fs.nodes ++ above ++ [(p, .file content false)] }

end Files

end Conformance.Machine
