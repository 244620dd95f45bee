/-
Conformance — the shape of a message.

A decoder takes a JSON document apart and says what is wrong with it.  A record
may come as an object or as a list of its fields in order.  In an object the
members are looked at in the order of their keys, and the first bad one is
reported; only then a missing one, in the order in which the record declares
its fields.  Members that the record does not declare are ignored; items past
the last field are not.
-/
import Conformance.Json.Parse

namespace Conformance.Wire

/-- Why a document has the wrong shape. -/
inductive ShapeError where
  | missingField (name : String)
  | invalidType (found : Json) (expected : String)
  | invalidValue (found : Int) (expected : String)
  | invalidLength (length : Nat) (expected : String)

/-- What a document is, for a reader of an error. -/
def found : Json → String
  | .null => "null"
  | .bool b => "boolean `" ++ (if b then "true" else "false") ++ "`"
  | .num (.int i) => "integer `" ++ toString i ++ "`"
  | .num (.float x) => "floating point `" ++ String.ofList (Json.Number.floatText x) ++ "`"
  | .str s => "string " ++ Text.quoted s
  | .arr _ => "sequence"
  | .obj _ => "map"

def ShapeError.message : ShapeError → String
  | missingField name => "missing field `" ++ name ++ "`"
  | invalidType j expected => "invalid type: " ++ found j ++ ", expected " ++ expected
  | invalidValue i expected => "invalid value: integer `" ++ toString i ++ "`, expected " ++ expected
  | invalidLength n expected => "invalid length " ++ toString n ++ ", expected " ++ expected

abbrev Decoded (α : Type) := Except ShapeError α

abbrev Decoder (α : Type) := Json → Decoded α

/-! ## Values -/

def string : Decoder String
  | .str s => .ok s
  | j => .error (.invalidType j "a string")

/-- An integer from `lo` to `hi`. -/
def integer (lo hi : Int) (name : String) : Decoder Int
  | .num (.int i) => if lo ≤ i && i ≤ hi then .ok i else .error (.invalidValue i name)
  | j => .error (.invalidType j name)

/-- An unsigned 64-bit integer. -/
def word : Decoder Nat := fun j => (integer 0 (Word.bound - 1) "u64" j).map Int.toNat

/-- A signed 64-bit integer. -/
def signedWord : Decoder Int := integer (-Word.signedBound) (Word.signedBound - 1) "i64"

/-- Any document, as it is. -/
def value : Decoder Json := .ok

/-- `null` is nothing. -/
def nullable (d : Decoder α) : Decoder (Option α)
  | .null => .ok none
  | j => (d j).map some

/-- Decodes each item, in order. -/
def items (d : Decoder α) : List Json → Decoded (List α)
  | [] => .ok []
  | x :: xs => do
      let a ← d x
      let rest ← items d xs
      return a :: rest

/-- A list of like items. -/
def sequence (d : Decoder α) : Decoder (List α)
  | .arr xs => items d xs
  | j => .error (.invalidType j "a sequence")

/-! ## Records -/

/-- A member, decoded if it is there. -/
def member (ms : List (String × Json)) (key : String) (d : Decoder α) : Decoded (Option α) :=
  match ms.lookup key with
  | some j => (d j).map some
  | none => .ok none

/-- A field that must have been there. -/
def required (name : String) : Option α → Decoded α
  | some a => .ok a
  | none => .error (.missingField name)

/-- An item, decoded if it is there. -/
def item (xs : List Json) (i : Nat) (d : Decoder α) : Decoded (Option α) :=
  match xs[i]? with
  | some j => (d j).map some
  | none => .ok none

/-- The text for a record of `n` fields that came with too few items. -/
def withElements (name : String) (n : Nat) : String :=
  "struct " ++ name ++ " with " ++ toString n ++ " elements"

/-- An item that must be there, of a record with `n` fields. -/
def requiredItem (name : String) (n : Nat) (xs : List Json) (i : Nat) (d : Decoder α) :
    Decoded α :=
  match xs[i]? with
  | some j => d j
  | none => .error (.invalidLength i (withElements name n))

/-- A list for a record of `n` fields has no more items than that. -/
def noMoreThan (n : Nat) (xs : List Json) : Decoded Unit :=
  if xs.length ≤ n then .ok () else .error (.invalidLength xs.length "fewer elements in array")

/-- A record, from its members or from its fields in order. -/
def record (name : String) (ofMembers : List (String × Json) → Decoded α)
    (ofItems : List Json → Decoded α) : Decoder α
  | .obj ms => ofMembers ms
  | .arr xs => ofItems xs
  | j => .error (.invalidType j ("struct " ++ name))

end Conformance.Wire
