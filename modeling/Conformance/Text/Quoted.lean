/-
Conformance — quoted text.

A text between double quotes, readable by a person and on one line: the
quote, the backslash, NUL and the three controls with short names are written
with a backslash, every other hidden character as its code point in braces,
and all else as it is.  An apostrophe is no special character.
-/
import Conformance.Text.Hidden

namespace Conformance.Text

/-- The lower-case hexadecimal digits of a number. -/
def hex (n : Nat) : List Char := Nat.toDigits 16 n

/-- One character of a quoted text. -/
def quotedChar (c : Char) : List Char :=
  match c with
  | '"' => ['\\', '"']
  | '\\' => ['\\', '\\']
  | '\t' => ['\\', 't']
  | '\r' => ['\\', 'r']
  | '\n' => ['\\', 'n']
  | '\x00' => ['\\', '0']
  | c =>
      if isHidden c then ['\\', 'u', '\x7b'] ++ hex c.toNat ++ ['\x7d']
      else [c]

/-- A text in double quotes. -/
def quoted (s : String) : String :=
  String.ofList ('"' :: s.toList.flatMap quotedChar ++ ['"'])

end Conformance.Text
