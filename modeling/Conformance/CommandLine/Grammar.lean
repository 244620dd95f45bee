/-
Conformance — reading a command line.

A level of a command line has options, known by a long name and perhaps a short
one, and perhaps subcommands, which open the next level.  An option is a flag
or takes one value, attached behind an equal sign or as the next token; that
token may start with a hyphen only for an option that says so, and then it may
be anything.  A value is checked when the next option is met or the level ends,
so a token that no level knows is reported before a bad value in front of it.
-/
import Conformance.Text.Digits

namespace Conformance.CommandLine

/-- Why a command line is refused, or answered with a text of its own. -/
inductive Refusal where
  | help
  | version
  /-- Nothing but the program's name. -/
  | nothingGiven
  | missingSubcommand
  | invalidSubcommand
  | unknownArgument
  /-- No value, or an empty path. -/
  | invalidValue
  /-- No number. -/
  | valueValidation
  | tooManyValues
  | argumentConflict
deriving DecidableEq, Repr

/-- A text that was asked for is no failure. -/
def Refusal.exitCode : Refusal → Nat
  | help | version => 0
  | _ => 2

/-- What a value must be. -/
inductive ValueKind where
  | text
  /-- A text that is not empty. -/
  | path
  /-- An unsigned 64-bit number. -/
  | word
deriving DecidableEq

/-- Whether a value will do. -/
def ValueKind.check (k : ValueKind) (v : String) : Except Refusal Unit :=
  match k with
  | .text => .ok ()
  | .path => if v.isEmpty then .error .invalidValue else .ok ()
  | .word => if (Text.word? v).isSome then .ok () else .error .valueValidation

inductive OptionKind where
  | flag
  | help
  | version
  /-- `list`: it may be repeated; `anyToken`: its value may start with a hyphen. -/
  | value (kind : ValueKind) (list anyToken : Bool)
deriving DecidableEq

structure OptionSpec where
  long : String
  short : Option Char := none
  kind : OptionKind
deriving DecidableEq

structure Level where
  options : List OptionSpec
  subcommands : List String := []
  /-- Pairs of options that exclude each other. -/
  exclusive : List (String × String) := []

namespace OptionSpec

def takesValue (o : OptionSpec) : Bool :=
  match o.kind with
  | .value _ _ _ => true
  | _ => false

def isList (o : OptionSpec) : Bool :=
  match o.kind with
  | .value _ list _ => list
  | _ => false

def takesAnyToken (o : OptionSpec) : Bool :=
  match o.kind with
  | .value _ _ anyToken => anyToken
  | _ => false

def check (o : OptionSpec) (v : String) : Except Refusal Unit :=
  match o.kind with
  | .value k _ _ => k.check v
  | _ => .ok ()

end OptionSpec

/-- The options found, by long name, with their values in order. -/
abbrev Found := List (String × String)

/-- The last option met. -/
inductive Pending where
  | nothing
  /-- Its value is due. -/
  | awaiting (o : OptionSpec)
  /-- Its value is there but not checked. -/
  | holding (o : OptionSpec) (v : String)

structure Reading where
  found : Found := []
  pending : Pending := .nothing
  /-- Set behind `--`, where no token is an option. -/
  escaped : Bool := false

/-- What a level was read to: its options, and the subcommand with the tokens
behind it. -/
structure LevelResult where
  reading : Reading
  sub : Option (String × List String) := none

namespace Reading

/-- Records an option; one that is no list may come only once. -/
def record (r : Reading) (o : OptionSpec) (v : String) : Except Refusal Reading :=
  if !o.isList && (r.found.lookup o.long).isSome then .error .argumentConflict
  else do
    o.check v
    return { r with found := r.found ++ [(o.long, v)], pending := .nothing }

/-- Settles the last option met. -/
def resolve (r : Reading) : Except Refusal Reading :=
  match r.pending with
  | .nothing => .ok r
  | .awaiting _ => .error .invalidValue
  | .holding o v => r.record o v

/-- An option without a value. -/
def flag (r : Reading) (o : OptionSpec) : Except Refusal Reading := do
  let r ← r.resolve
  match o.kind with
  | .help => .error .help
  | .version => .error .version
  | _ => r.record o ""

/-- A token `--name` or `--name=value`. -/
def long (level : Level) (r : Reading) (name : String) (attached : Option String) :
    Except Refusal Reading :=
  match level.options.find? (·.long == name) with
  | none => .error .unknownArgument
  | some o =>
      match o.takesValue, attached with
      | true, some v => do (← r.resolve).record o v
      | true, none => do return { (← r.resolve) with pending := .awaiting o }
      | false, some _ => .error .tooManyValues
      | false, none => r.flag o

/-- The letters of a token `-abc`. -/
def shorts (level : Level) : List Char → Reading → Except Refusal Reading
  | [], r => .ok r
  | c :: cs, r =>
      match level.options.find? (·.short == some c) with
      | none => .error .unknownArgument
      | some o => do shorts level cs (← r.flag o)

end Reading

/-- What a token looks like. -/
inductive Token where
  | escape
  | long (name : String) (attached : Option String)
  | short (letters : List Char)
  | plain
deriving DecidableEq

/-- Splits a long option at its first equal sign. -/
def splitLong (cs : List Char) : Token :=
  let name := String.ofList (cs.takeWhile (· ≠ '='))
  match cs.dropWhile (· ≠ '=') with
  | [] => .long name none
  | _ :: v => .long name (some (String.ofList v))

def Token.of (s : String) : Token :=
  match s.toList with
  | ['-', '-'] => .escape
  | '-' :: '-' :: rest => splitLong rest
  | ['-'] => .plain
  | '-' :: letters => .short letters
  | _ => .plain

/-- The refusal of a token that is neither option, value nor subcommand. -/
def stray (level : Level) (escaped : Bool) (t : String) : Refusal :=
  if level.subcommands.isEmpty || (escaped && level.subcommands.contains t) then .unknownArgument
  else .invalidSubcommand

/-- The option whose value is due. -/
def Reading.awaited (r : Reading) : Option OptionSpec :=
  match r.pending with
  | .awaiting o => some o
  | _ => none

/-- Reads the tokens of a level, up to a subcommand. -/
def readLevel (level : Level) : List String → Reading → Except Refusal LevelResult
  | [], r => .ok { reading := r }
  | t :: ts, r =>
      if r.escaped then .error (stray level true t)
      else
        match r.awaited with
        | some o =>
            if o.takesAnyToken then readLevel level ts { r with pending := .holding o t }
            else
              match Token.of t with
              | .escape => readLevel level ts { r with escaped := true }
              | .long name attached => do readLevel level ts (← r.long level name attached)
              | .short letters => do readLevel level ts (← r.shorts level letters)
              | .plain => readLevel level ts { r with pending := .holding o t }
        | none =>
            if level.subcommands.contains t then .ok { reading := r, sub := some (t, ts) }
            else
              match Token.of t with
              | .escape => readLevel level ts { r with escaped := true }
              | .long name attached => do readLevel level ts (← r.long level name attached)
              | .short letters => do readLevel level ts (← Reading.shorts level letters r)
              | .plain => .error (stray level false t)

/-- Whether two options that exclude each other were both found. -/
def excluded (level : Level) (found : Found) : Bool :=
  level.exclusive.any fun p => (found.lookup p.1).isSome && (found.lookup p.2).isSome

/-- Closes a level: the last option is settled, and exclusions are checked. -/
def close (level : Level) (r : Reading) : Except Refusal Found := do
  let r ← r.resolve
  if excluded level r.found then .error .argumentConflict else .ok r.found

/-! ## Values found -/

def Found.has (f : Found) (name : String) : Bool := (f.lookup name).isSome

def Found.value? (f : Found) (name : String) : Option String := f.lookup name

def Found.values (f : Found) (name : String) : List String :=
  (f.filter (·.1 == name)).map (·.2)

def Found.word? (f : Found) (name : String) : Option Nat := (f.value? name).bind Text.word?

end Conformance.CommandLine
