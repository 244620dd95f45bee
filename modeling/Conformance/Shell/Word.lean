/-
Conformance — words of shell scripts.

A word is a list of parts.  A part is taken as it is, or stands for something
that is known only when the word is used: the value of a variable, the output
of a script, the value of an expression, a range of numbers.  What stands
between quotes is never split.
-/
import Conformance.Text.Digits
import Conformance.Text.Utf8

namespace Conformance.Shell

inductive Part where
  | literal (s : List Char) (quoted : Bool)
  | variable (name : String) (quoted : Bool)
  /-- The output of a script. -/
  | output (script : List Char) (quoted : Bool)
  /-- The value of an expression. -/
  | value (expression : List Char)
  | range (first last : Int)

abbrev Word := List Part

/-- The text of a word in which nothing is quoted and nothing stands for
something else. -/
def bare? : Word → Option String
  | [] => some ""
  | .literal s false :: rest => (bare? rest).map (String.ofList s ++ ·)
  | _ => none

/-! ## Characters -/

def isBlank (c : Char) : Bool := c == ' ' || c == '\t'

/-- A character that ends a word. -/
def endsWord (c : Char) : Bool :=
  isBlank c || c == '\n' || c == ';' || c == '&' || c == '|' || c == '<' || c == '>' || c == '('
    || c == ')'

def isNameStart (c : Char) : Bool :=
  ('a' ≤ c && c ≤ 'z') || ('A' ≤ c && c ≤ 'Z') || c == '_'

def isNameChar (c : Char) : Bool := isNameStart c || c.isDigit

/-- A name of one character that is no letter. -/
def isSpecialName (c : Char) : Bool :=
  c == '?' || c == '$' || c == '#' || c == '@' || c == '*' || c == '!' || c.isDigit

/-! ## Marks that close -/

/-- The characters up to a mark, and those behind it. -/
def upTo (mark : Char) : List Char → Option (List Char × List Char)
  | [] => none
  | c :: cs => if c = mark then some ([], cs) else (upTo mark cs).map fun (a, b) => (c :: a, b)

/-- The characters up to the parenthesis that closes the one in front, when
`depth` others are open; quotes hide parentheses. -/
def upToClose : Nat → Option Char → List Char → Option (List Char × List Char)
  | _, _, [] => none
  | depth, quote, '\\' :: c :: cs =>
      (upToClose depth quote cs).map fun (a, b) => ('\\' :: c :: a, b)
  | depth, some q, c :: cs =>
      (upToClose depth (if c = q then none else some q) cs).map fun (a, b) => (c :: a, b)
  | depth, none, c :: cs =>
      if c = ')' ∧ depth = 0 then some ([], cs)
      else
        let depth := if c = '(' then depth + 1 else if c = ')' then depth - 1 else depth
        let quote := if c = '\'' ∨ c = '"' then some c else none
        (upToClose depth quote cs).map fun (a, b) => (c :: a, b)

/-! ## Escapes -/

def charOctets (c : Char) : List UInt8 := String.utf8EncodeChar c

/-- At most `n` digits of a base in front of a text, and the rest. -/
def takeDigits (base n : Nat) (cs : List Char) : List Char × List Char :=
  let digits := (cs.take n).takeWhile (Text.isDigit base)
  (digits, cs.drop digits.length)

/-- The octets of an escape behind its backslash, and what follows; an escape
that is none stands for itself. -/
def escape (cs : List Char) : List UInt8 × List Char :=
  match cs with
  | 'n' :: rest => ([10], rest)
  | 't' :: rest => ([9], rest)
  | 'r' :: rest => ([13], rest)
  | 'a' :: rest => ([7], rest)
  | 'b' :: rest => ([8], rest)
  | 'f' :: rest => ([12], rest)
  | 'v' :: rest => ([11], rest)
  | 'e' :: rest => ([27], rest)
  | '\\' :: rest => ([92], rest)
  | '"' :: rest => ([34], rest)
  | '\'' :: rest => ([39], rest)
  | 'x' :: rest =>
      let (digits, behind) := takeDigits 16 2 rest
      if digits.isEmpty then ([92, 120], rest) else ([UInt8.ofNat (Text.numberIn 16 digits)], behind)
  | 'u' :: rest =>
      let (digits, behind) := takeDigits 16 4 rest
      (charOctets (Char.ofNat (Text.numberIn 16 digits)), behind)
  | 'U' :: rest =>
      let (digits, behind) := takeDigits 16 8 rest
      (charOctets (Char.ofNat (Text.numberIn 16 digits)), behind)
  | '0' :: rest =>
      let (digits, behind) := takeDigits 8 3 rest
      ([UInt8.ofNat (Text.numberIn 8 digits)], behind)
  | c :: rest =>
      if Text.isDigit 8 c then
        let (digits, behind) := takeDigits 8 3 (c :: rest)
        ([UInt8.ofNat (Text.numberIn 8 digits)], behind)
      else (92 :: charOctets c, rest)
  | [] => ([92], [])

/-- A text with its escapes put in. -/
def unescape : Nat → List Char → List UInt8
  | 0, _ => []
  | _, [] => []
  | fuel + 1, '\\' :: cs =>
      let (octets, rest) := escape cs
      octets ++ unescape fuel rest
  | fuel + 1, c :: cs => charOctets c ++ unescape fuel cs

/-! ## Parts -/

/-- The part behind a dollar sign; `none` where the sign is just that. -/
def dollar (quoted : Bool) (cs : List Char) : Option (Part × List Char) :=
  match cs with
  | '(' :: '(' :: rest =>
      match upToClose 0 none rest with
      | some (inside, ')' :: behind) => some (.value inside, behind)
      | _ => none
  | '(' :: rest => (upToClose 0 none rest).map fun (inside, behind) =>
      (.output inside quoted, behind)
  | '\x7b' :: rest => (upTo '\x7d' rest).map fun (name, behind) =>
      (.variable (String.ofList name) quoted, behind)
  | '\'' :: rest =>
      if quoted then none
      else (upTo '\'' rest).map fun (inside, behind) =>
        (.literal (Utf8.decodeLossy (unescape inside.length inside)).toList true, behind)
  | c :: rest =>
      if isSpecialName c then some (.variable (String.singleton c) quoted, rest)
      else if isNameStart c then
        some (.variable (String.ofList ((c :: rest).takeWhile isNameChar)) quoted,
          (c :: rest).dropWhile isNameChar)
      else none
  | [] => none

/-- A range of numbers behind an opening brace. -/
def braceRange (cs : List Char) : Option (Part × List Char) := do
  let (inside, behind) ← upTo '\x7d' cs
  match (String.ofList inside).splitOn ".." with
  | [a, b] => return (.range (← a.toInt?) (← b.toInt?), behind)
  | _ => none

/-- The parts of a word, up to its end, or up to a closing quote. -/
def parts : Nat → Bool → List Char → Option (Word × List Char)
  | 0, _, _ => none
  | fuel + 1, inQuotes, cs =>
      let more (p : Part) (rest : List Char) :=
        (parts fuel inQuotes rest).map fun (ps, rest) => (p :: ps, rest)
      match cs, inQuotes with
      | [], true => none
      | [], false => some ([], [])
      | '"' :: rest, true => some ([], rest)
      | '\\' :: '\n' :: rest, _ => parts fuel inQuotes rest
      | '\\' :: c :: rest, true =>
          if c = '$' ∨ c = '`' ∨ c = '"' ∨ c = '\\' then more (.literal [c] true) rest
          else more (.literal ['\\', c] true) rest
      | '\\' :: c :: rest, false => more (.literal [c] true) rest
      | '"' :: rest, false => do
          let (inside, rest) ← parts fuel true rest
          let (ps, rest) ← parts fuel false rest
          return (.literal [] true :: (inside ++ ps), rest)
      | '\'' :: rest, false => do
          let (inside, rest) ← upTo '\'' rest
          more (.literal inside true) rest
      | '`' :: rest, _ => do
          let (inside, rest) ← upTo '`' rest
          more (.output inside inQuotes) rest
      | '$' :: rest, _ =>
          match dollar inQuotes rest with
          | some (p, rest) => more p rest
          | none => more (.literal ['$'] inQuotes) rest
      | '\x7b' :: rest, false =>
          match braceRange rest with
          | some (p, rest) => more p rest
          | none => more (.literal ['\x7b'] false) rest
      | c :: rest, _ =>
          if !inQuotes && endsWord c then some ([], cs) else more (.literal [c] inQuotes) rest

/-- The word at the start of a text. -/
def word (cs : List Char) : Option (Word × List Char) := parts (2 * cs.length + 2) false cs

end Conformance.Shell
