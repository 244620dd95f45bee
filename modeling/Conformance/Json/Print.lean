/-
Conformance — JSON text.

The text of a document is compact: no blank between its parts, members in
their order.  In a string only the quote, the backslash and the characters
below U+0020 are escaped.
-/
import Conformance.Json.Value
import Conformance.Text.Quoted

namespace Conformance.Json

/-- One character inside a string. -/
def stringChar (c : Char) : List Char :=
  match c with
  | '"' => ['\\', '"']
  | '\\' => ['\\', '\\']
  | '\x08' => ['\\', 'b']
  | '\x0c' => ['\\', 'f']
  | '\n' => ['\\', 'n']
  | '\r' => ['\\', 'r']
  | '\t' => ['\\', 't']
  | c =>
      if c.toNat < 0x20 then
        ['\\', 'u', '0', '0'] ++ (if c.toNat < 0x10 then ['0'] else []) ++ Text.hex c.toNat
      else [c]

/-- A string with its quotes. -/
def stringText (s : String) : List Char :=
  '"' :: s.toList.flatMap stringChar ++ ['"']

mutual

/-- The text of a document. -/
def text : Json → List Char
  | .null => ['n', 'u', 'l', 'l']
  | .bool true => ['t', 'r', 'u', 'e']
  | .bool false => ['f', 'a', 'l', 's', 'e']
  | .num n => n.text
  | .str s => stringText s
  | .arr xs => '[' :: (itemsText xs ++ [']'])
  | .obj ms => '\x7b' :: (membersText ms ++ ['\x7d'])

/-- The items of a list, with commas between. -/
def itemsText : List Json → List Char
  | [] => []
  | [x] => text x
  | x :: xs => text x ++ ',' :: itemsText xs

/-- The members of an object, with commas between. -/
def membersText : List (String × Json) → List Char
  | [] => []
  | [(k, v)] => stringText k ++ ':' :: text v
  | (k, v) :: rest => stringText k ++ ':' :: (text v ++ ',' :: membersText rest)

end

/-- The text of a document, members in their order. -/
def print (j : Json) : String := String.ofList j.text

/-- The text of a document with sorted members. -/
def printSorted (j : Json) : String := print j.canonical

end Conformance.Json
