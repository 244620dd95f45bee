/-
Conformance — settings in a file.

A settings file is a document with a table for each section.  A section may
also be a list of its fields in order.  What is not given keeps its default,
and what is not known is ignored.  A section given as a date says nothing.
-/
import Conformance.Settings.Basic
import Conformance.Toml.Parse

namespace Conformance.Settings

open Toml (Item Entries)

/-- A text. -/
def text? : Item → Option String
  | .text s => some s
  | _ => none

/-- A natural. -/
def nat? : Item → Option Nat
  | .integer i => if 0 ≤ i then some i.toNat else none
  | _ => none

/-- Texts in a list. -/
def texts? : Item → Option (List String)
  | .list xs => xs.mapM text?
  | .tables ts => if ts.isEmpty then some [] else none
  | _ => none

/-- The fields of a section: its names in order, and where they are found. -/
structure Fields where
  names : List String
  item? : String → Option Item

/-- The position of a name. -/
def position (names : List String) (n : String) : Nat := names.idxOf n

/-- The fields of a section, from what the file gives for it. -/
def fields? (names : List String) : Option Item → Option Fields
  | none => some { names, item? := fun _ => none }
  | some (.table _ entries) => some { names, item? := fun n => entries.lookup n }
  | some (.list xs) => some { names, item? := fun n => xs[position names n]? }
  | some (.tables ts) =>
      some { names, item? := fun n => (ts[position names n]?).map (.table .header) }
  | some .moment => some { names, item? := fun _ => none }
  | some _ => none

/-- A field that is given must decode; one that is not given has its default. -/
def field {α : Type} (f : Fields) (name : String) (decode : Item → Option α) (default : α) :
    Option α :=
  match f.item? name with
  | none => some default
  | some item => decode item

def logging? (item : Option Item) : Option LogSettings := do
  let f ← fields? ["level", "format"] item
  let default : LogSettings := {}
  return { level := ← field f "level" text? default.level
           format := ← field f "format" text? default.format }

def server? (item : Option Item) : Option ServerSettings := do
  let f ← fields? ["command", "args", "cwd", "project_root"] item
  return { command := ← field f "command" text? ""
           args := ← field f "args" texts? []
           cwd := ← field f "cwd" (Option.map some ∘ text?) none
           projectRoot := ← field f "project_root" (Option.map some ∘ text?) none }

def client? (item : Option Item) : Option Wire.ClientInfo := do
  let f ← fields? ["name", "version"] item
  let default : Wire.ClientInfo := {}
  return { name := ← field f "name" text? default.name
           version := ← field f "version" text? default.version }

def timeouts? (item : Option Item) : Option Timeouts := do
  let f ← fields? ["request_secs", "test_secs", "settle_ms", "shutdown_grace_secs"] item
  let default : Timeouts := {}
  return { requestSecs := ← field f "request_secs" nat? default.requestSecs
           testSecs := ← field f "test_secs" nat? default.testSecs
           settleMillis := ← field f "settle_ms" nat? default.settleMillis
           graceSecs := ← field f "shutdown_grace_secs" nat? default.graceSecs }

def suites? (item : Option Item) : Option (List String) := do
  let f ← fields? ["suites"] item
  field f "suites" texts? Suite.keys

/-- The settings in a document. -/
def ofEntries? (entries : Entries) : Option Settings := do
  return { logging := ← logging? (entries.lookup "logging")
           server := ← server? (entries.lookup "server")
           client := ← client? (entries.lookup "client")
           timeouts := ← timeouts? (entries.lookup "timeouts")
           suites := ← suites? (entries.lookup "run") }

/-- The settings in the text of a file. -/
def ofText? (s : String) : Option Settings := (Toml.parse? s).bind ofEntries?

end Conformance.Settings
