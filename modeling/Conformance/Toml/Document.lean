/-
Conformance — TOML documents.

A document is a table.  A table comes about in one of four ways, and the way
decides what may be added to it later: a header opens a table once, and may
open one that was only implied by a longer header; dotted keys add to tables
that dotted keys made, or that are only implied; a table written inline is
closed.  No key is given twice.
-/
import Conformance.Json.Value

namespace Conformance.Toml

/-- How a table came about. -/
inductive Origin where
  /-- A header named a table inside it. -/
  | implied
  /-- A dotted key led through it. -/
  | dotted
  /-- A header named it. -/
  | header
  /-- It was written as a value. -/
  | inline
deriving DecidableEq

inductive Item where
  | text (s : String)
  | integer (i : Int)
  | float
  | boolean (b : Bool)
  /-- A date, a time, or both. -/
  | moment
  | list (items : List Item)
  | table (origin : Origin) (entries : List (String × Item))
  /-- The tables of a repeated header, in order. -/
  | tables (ts : List (List (String × Item)))

/-- The entries of a table, in the order in which they were given. -/
abbrev Entries := List (String × Item)

/-- A key with dots: the names on the way and the last one. -/
structure Path where
  way : List String
  last : String

/-- Puts an item in the place of the one with its key, or at the end. -/
def put (key : String) (item : Item) : Entries → Entries
  | [] => [(key, item)]
  | (k, v) :: rest => if k == key then (key, item) :: rest else (k, v) :: put key item rest

/-- Changes the last table of a repeated header. -/
def changeLast (f : Entries → Option Entries) : List Entries → Option (List Entries)
  | [] => none
  | [t] => do return [← f t]
  | t :: ts => do return t :: (← changeLast f ts)

/-- Changes the table that a way leads to.  A table that is not there yet is
made with the origin `made`.  A dotted key does not lead into a table that a
header opened, and nothing leads into an inline one. -/
def changeAt (made : Origin) (f : Origin → Entries → Option Entries) :
    List String → Origin → Entries → Option Entries
  | [], origin, entries => f origin entries
  | key :: way, _, entries =>
      match entries.lookup key with
      | none => do return put key (.table made (← changeAt made f way made [])) entries
      | some (.table .inline _) => none
      | some (.table origin inner) =>
          if made = .dotted ∧ origin = .header then none
          else do return put key (.table origin (← changeAt made f way origin inner)) entries
      | some (.tables ts) => do
          return put key (.tables (← changeLast (changeAt made f way .header) ts)) entries
      | some _ => none

/-- Adds a key that is not there yet. -/
def addNew (key : String) (item : Item) (entries : Entries) : Option Entries :=
  match entries.lookup key with
  | some _ => none
  | none => some (entries ++ [(key, item)])

/-- Adds a value under a key to an open table.  A dotted key ends in a table
that dotted keys made. -/
def assign (path : Path) (item : Item) (origin : Origin) (entries : Entries) : Option Entries :=
  changeAt .dotted
    (fun o entries =>
      if path.way.isEmpty || o = .dotted then addNew path.last item entries else none)
    path.way origin entries

/-- Opens the table of a header. -/
def openTable (path : Path) (root : Entries) : Option Entries :=
  changeAt .implied
    (fun _ entries =>
      match entries.lookup path.last with
      | none => some (entries ++ [(path.last, .table .header [])])
      | some (.table .implied inner) => some (put path.last (.table .header inner) entries)
      | some _ => none)
    path.way .header root

/-- Opens another table of a repeated header. -/
def openNext (path : Path) (root : Entries) : Option Entries :=
  changeAt .implied
    (fun _ entries =>
      match entries.lookup path.last with
      | none => some (entries ++ [(path.last, .tables [[]])])
      | some (.tables ts) => some (put path.last (.tables (ts ++ [[]])) entries)
      | some _ => none)
    path.way .header root

/-- Adds a value to the table of the last header; without a header, to the
document. -/
def assignIn (header : List String) (path : Path) (item : Item) (root : Entries) :
    Option Entries :=
  changeAt .implied (assign path item) header .header root

/-- An inline table. -/
def inlineTable : List (Path × Item) → Entries → Option Entries
  | [], entries => some entries
  | (path, item) :: rest, entries => do
      inlineTable rest (← assign path item .inline entries)

end Conformance.Toml
