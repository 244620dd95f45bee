/-
Conformance — TOML text.

A document is lines: a header, a key with its value, or nothing, each perhaps
with a comment.  Keys are bare or quoted, joined by dots.  Lists may run over
several lines and end in a comma; inline tables may not.  Nesting has a limit,
and so has the number of names in a key.
-/
import Conformance.Toml.Text

namespace Conformance.Toml

/-- Lists and inline tables may be nested so deep. -/
def nestingLimit : Nat := 79

/-- A key may have so many names. -/
def nameLimit : Nat := 79

/-! ## Between the parts -/

def isSpace (c : Char) : Bool := c == ' ' || c == '\t'

def skipSpaces (cs : List Char) : List Char := cs.dropWhile isSpace

/-- A character of a comment. -/
def isCommentChar (c : Char) : Bool := c.toNat ≥ 0x20 || c == '\t'

/-- What is behind the end of a line. -/
def lineEnd : List Char → Option (List Char)
  | [] => some []
  | '\n' :: rest | '\r' :: '\n' :: rest => some rest
  | _ => none

/-- What is behind a line with nothing more than a comment on it. -/
def restOfLine (cs : List Char) : Option (List Char) :=
  match skipSpaces cs with
  | '#' :: rest => lineEnd (rest.dropWhile isCommentChar)
  | cs => lineEnd cs

/-- What is behind blanks, line ends and comments; the flag tells whether the
text starts inside a comment. -/
def skipFiller : Bool → List Char → List Char
  | _, [] => []
  | _, '\n' :: rest | _, '\r' :: '\n' :: rest => skipFiller false rest
  | true, c :: rest => if isCommentChar c then skipFiller true rest else c :: rest
  | false, c :: rest =>
      if isSpace c then skipFiller false rest
      else if c = '#' then skipFiller true rest
      else c :: rest

/-! ## Keys -/

def isBare (c : Char) : Bool :=
  c.isDigit || ('a' ≤ c && c ≤ 'z') || ('A' ≤ c && c ≤ 'Z') || c == '_' || c == '-'

/-- One name of a key. -/
def name (cs : List Char) : Option (String × List Char) :=
  match cs with
  | '"' :: rest => (basicString rest).map fun (s, rest) => (String.ofList s, rest)
  | '\'' :: rest => (literalString rest).map fun (s, rest) => (String.ofList s, rest)
  | _ =>
      let bare := cs.takeWhile isBare
      if bare.isEmpty then none else some (String.ofList bare, cs.dropWhile isBare)

/-- The names of a key, at most `limit` of them. -/
def key : Nat → List Char → Option (Path × List Char)
  | 0, _ => none
  | limit + 1, cs => do
      let (first, rest) ← name (skipSpaces cs)
      match skipSpaces rest with
      | '.' :: rest =>
          let (path, rest) ← key limit rest
          return ({ path with way := first :: path.way }, rest)
      | rest => return ({ way := [], last := first }, rest)

/-! ## Values -/

mutual

/-- A value at the start of a text; `room` levels of nesting are left. -/
def value : Nat → Nat → List Char → Option (Item × List Char)
  | 0, _, _ => none
  | fuel + 1, room, cs =>
      match cs, room with
      | '"' :: _, _ | '\'' :: _, _ =>
          (string cs).map fun (s, rest) => (.text (String.ofList s), rest)
      | '[' :: rest, room + 1 =>
          (listItems fuel room (skipFiller false rest)).map fun (xs, rest) => (.list xs, rest)
      | '\x7b' :: rest, room + 1 => do
          let (pairs, rest) ← inlinePairs fuel room true (skipSpaces rest)
          return (.table .inline (← inlineTable pairs []), rest)
      | _, _ => scalar cs

/-- The items of a list, up to its end. -/
def listItems : Nat → Nat → List Char → Option (List Item × List Char)
  | 0, _, _ => none
  | fuel + 1, room, cs =>
      match cs with
      | ']' :: rest => some ([], rest)
      | _ => do
          let (x, rest) ← value fuel room cs
          match skipFiller false rest with
          | ',' :: rest =>
              let (xs, rest) ← listItems fuel room (skipFiller false rest)
              return (x :: xs, rest)
          | ']' :: rest => return ([x], rest)
          | _ => none

/-- The keys and values of an inline table, up to its end; `first` where none
may be there. -/
def inlinePairs : Nat → Nat → Bool → List Char → Option (List (Path × Item) × List Char)
  | 0, _, _, _ => none
  | fuel + 1, room, first, cs =>
      match cs, first with
      | '\x7d' :: rest, true => some ([], rest)
      | _, _ => do
          let (path, rest) ← key nameLimit cs
          let (item, rest) ← value fuel room (skipSpaces (← skip '=' rest))
          match skipSpaces rest with
          | ',' :: rest =>
              let (more, rest) ← inlinePairs fuel room false (skipSpaces rest)
              return ((path, item) :: more, rest)
          | '\x7d' :: rest => return ([(path, item)], rest)
          | _ => none

end

/-! ## Lines -/

/-- A document under way: its table, and the last header. -/
structure Draft where
  root : Entries := []
  header : List String := []

/-- A header, behind its opening bracket. -/
def header (d : Draft) (cs : List Char) : Option (Draft × List Char) :=
  match cs with
  | '[' :: cs => do
      let (path, rest) ← key nameLimit cs
      let rest ← restOfLine (← skip ']' (← skip ']' rest))
      return ({ root := ← openNext path d.root, header := path.way ++ [path.last] }, rest)
  | _ => do
      let (path, rest) ← key nameLimit cs
      let rest ← restOfLine (← skip ']' rest)
      return ({ root := ← openTable path d.root, header := path.way ++ [path.last] }, rest)

/-- A key with its value.  No two calls of `value` and its companions in a row
leave the text as it is, which bounds their number. -/
def assignment (d : Draft) (cs : List Char) : Option (Draft × List Char) := do
  let (path, rest) ← key nameLimit cs
  let behind := skipSpaces (← skip '=' rest)
  let (item, rest) ← value (2 * behind.length + 2) nestingLimit behind
  let rest ← restOfLine rest
  return ({ d with root := ← assignIn d.header path item d.root }, rest)

/-- The lines of a document; none of them is empty, so there are no more than
characters. -/
def readLines : Nat → Draft → List Char → Option Entries
  | 0, _, _ => none
  | fuel + 1, d, cs =>
      match skipSpaces cs with
      | [] => some d.root
      | '[' :: rest => do
          let (d, rest) ← header d rest
          readLines fuel d rest
      | '#' :: rest => do readLines fuel d (← restOfLine ('#' :: rest))
      | '\n' :: rest | '\r' :: '\n' :: rest => readLines fuel d rest
      | cs => do
          let (d, rest) ← assignment d cs
          readLines fuel d rest

/-- The mark that may stand at the start of a text. -/
def byteOrderMark : Char := '\ufeff'

/-- Reads a text as a document. -/
def parse? (s : String) : Option Entries :=
  let cs := match s.toList with
    | c :: cs => if c = byteOrderMark then cs else c :: cs
    | [] => []
  readLines (cs.length + 1) {} cs

end Conformance.Toml
