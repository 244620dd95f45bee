/-
Conformance — TOML strings.

Four forms: in quotes with escapes or in apostrophes without, on one line or on
several.  On several lines a line end reads as a newline, a line end right
behind the opening marks is dropped, a backslash at the end of a line drops all
blanks and line ends up to the next character, and up to two marks may stand
right in front of the closing ones.
-/
import Conformance.Toml.Scalar

namespace Conformance.Toml

/-- What a text starts with, and the rest; `none` where nothing fits. -/
abbrev Scan := Option (List Char × List Char)

/-- A control character that no string or comment holds; the tab is none. -/
def isControl (c : Char) : Bool := (c.toNat < 0x20 && c != '\t') || c.toNat == 0x7F

/-- Puts a character in front of what was scanned. -/
def Scan.cons (c : Char) (s : Scan) : Scan := s.map fun (cs, rest) => (c :: cs, rest)

/-- The character of an escape of one letter. -/
def letterEscape? (c : Char) : Option Char :=
  match c with
  | 'b' => some '\x08'
  | 't' => some '\t'
  | 'n' => some '\n'
  | 'f' => some '\x0c'
  | 'r' => some '\r'
  | '"' => some '"'
  | '\\' => some '\\'
  | _ => none

/-- The character with a number in hexadecimal digits. -/
def hexChar? (digits : List Char) : Option Char :=
  let n := numberIn 16 digits
  if digits.all (Text.isDigit 16) ∧ n.isValidChar then some (Char.ofNat n) else none

/-! ## One line -/

/-- The rest of a string in quotes. -/
def basicString : List Char → Scan
  | [] => none
  | '"' :: rest => some ([], rest)
  | '\\' :: 'u' :: a :: b :: c :: d :: rest => do
      Scan.cons (← hexChar? [a, b, c, d]) (basicString rest)
  | '\\' :: 'U' :: a :: b :: c :: d :: e :: f :: g :: h :: rest => do
      Scan.cons (← hexChar? [a, b, c, d, e, f, g, h]) (basicString rest)
  | '\\' :: c :: rest => do Scan.cons (← letterEscape? c) (basicString rest)
  | c :: rest => if c = '\\' || isControl c then none else Scan.cons c (basicString rest)

/-- The rest of a string in apostrophes. -/
def literalString : List Char → Scan
  | [] => none
  | '\'' :: rest => some ([], rest)
  | c :: rest => if isControl c then none else Scan.cons c (literalString rest)

/-! ## Several lines -/

/-- The end of a string behind three closing marks: up to two more belong to
the string. -/
def closing (mark : Char) (rest : List Char) : List Char × List Char :=
  let extra := min 2 (rest.takeWhile (· == mark)).length
  (rest.take extra, rest.drop extra)

/-- Where the reading of a string on several lines stands. -/
inductive Folding where
  | text
  /-- Behind a backslash, in front of the end of the line. -/
  | toLineEnd
  /-- In front of the next character that is not blank. -/
  | toNext
deriving DecidableEq

/-- The rest of a string in triple quotes. -/
def basicLines : Folding → List Char → Scan
  | _, [] => none
  | .toLineEnd, ' ' :: rest | .toLineEnd, '\t' :: rest => basicLines .toLineEnd rest
  | .toLineEnd, '\n' :: rest | .toLineEnd, '\r' :: '\n' :: rest => basicLines .toNext rest
  | .toLineEnd, _ :: _ => none
  | .toNext, ' ' :: rest | .toNext, '\t' :: rest | .toNext, '\n' :: rest
  | .toNext, '\r' :: '\n' :: rest => basicLines .toNext rest
  | _, '"' :: '"' :: '"' :: rest => some (closing '"' rest)
  | _, '\r' :: '\n' :: rest | _, '\n' :: rest => Scan.cons '\n' (basicLines .text rest)
  | _, '\\' :: 'u' :: a :: b :: c :: d :: rest => do
      Scan.cons (← hexChar? [a, b, c, d]) (basicLines .text rest)
  | _, '\\' :: 'U' :: a :: b :: c :: d :: e :: f :: g :: h :: rest => do
      Scan.cons (← hexChar? [a, b, c, d, e, f, g, h]) (basicLines .text rest)
  | _, '\\' :: ' ' :: rest | _, '\\' :: '\t' :: rest => basicLines .toLineEnd rest
  | _, '\\' :: '\n' :: rest | _, '\\' :: '\r' :: '\n' :: rest => basicLines .toNext rest
  | _, '\\' :: c :: rest => do Scan.cons (← letterEscape? c) (basicLines .text rest)
  | _, c :: rest =>
      if c = '\\' || isControl c then none else Scan.cons c (basicLines .text rest)

/-- The rest of a string in triple apostrophes. -/
def literalLines : List Char → Scan
  | [] => none
  | '\'' :: '\'' :: '\'' :: rest => some (closing '\'' rest)
  | '\r' :: '\n' :: rest | '\n' :: rest => Scan.cons '\n' (literalLines rest)
  | c :: rest => if isControl c then none else Scan.cons c (literalLines rest)

/-- A text without a line end at its start. -/
def dropLineEnd : List Char → List Char
  | '\n' :: rest | '\r' :: '\n' :: rest => rest
  | cs => cs

/-- A string at the start of a text. -/
def string : List Char → Scan
  | '"' :: '"' :: '"' :: rest => basicLines .text (dropLineEnd rest)
  | '"' :: rest => basicString rest
  | '\'' :: '\'' :: '\'' :: rest => literalLines (dropLineEnd rest)
  | '\'' :: rest => literalString rest
  | _ => none

end Conformance.Toml
