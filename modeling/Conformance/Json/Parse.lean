/-
Conformance — reading JSON text.

A text is read one character at a time by a machine that keeps the containers
still open and the mode it is in: a value is due, a key, a colon, or the middle
of a word, a number or a string.  Each mode says what may come next, so a text
that is no document stops at the first octet that rules it out; the fault tells
its line and the number of octets on that line up to it.  Containers may nest
only so deep.
-/
import Conformance.Json.Print
import Conformance.Text.Digits

namespace Conformance.Json

/-- Why a text is no document. -/
inductive Fault where
  | endInValue
  | endInList
  | endInObject
  | endInString
  | wrongWord
  | noValue
  | noCommaOrBracket
  | noCommaOrBrace
  | trailingComma
  | keyNoString
  | noColon
  | trailing
  | invalidNumber
  | numberTooLarge
  | controlCharacter
  | invalidEscape
  | loneSurrogate
  | brokenPair
  | tooDeep
deriving DecidableEq, Repr

def Fault.text : Fault → String
  | endInValue => "EOF while parsing a value"
  | endInList => "EOF while parsing a list"
  | endInObject => "EOF while parsing an object"
  | endInString => "EOF while parsing a string"
  | wrongWord => "expected ident"
  | noValue => "expected value"
  | noCommaOrBracket => "expected `,` or `]`"
  | noCommaOrBrace => "expected `,` or `\x7d`"
  | trailingComma => "trailing comma"
  | keyNoString => "key must be a string"
  | noColon => "expected `:`"
  | trailing => "trailing characters"
  | invalidNumber => "invalid number"
  | numberTooLarge => "number out of range"
  | controlCharacter => "control character (\\u0000-\\u001F) found while parsing a string"
  | invalidEscape => "invalid escape"
  | loneSurrogate => "lone leading surrogate in hex escape"
  | brokenPair => "unexpected end of hex escape"
  | tooDeep => "recursion limit exceeded"

/-- A fault and where it is: line from 1, octets on that line up to the place. -/
structure ParseError where
  fault : Fault
  line : Nat
  column : Nat
deriving DecidableEq, Repr

def ParseError.message (e : ParseError) : String :=
  e.fault.text ++ " at line " ++ toString e.line ++ " column " ++ toString e.column

/-! ## The machine -/

/-- A container still open, with what it holds so far. -/
inductive Frame where
  /-- Items, the last one first. -/
  | list (done : List Json)
  /-- Members, sorted, and the key of the value that is due. -/
  | object (done : List (String × Json)) (key : String)

/-- Where a value is due; only the first item of a list may be missing. -/
inductive Due where
  | plain
  | firstItem
  | nextItem
deriving DecidableEq

/-- What of a numeral was read last. -/
inductive Place where
  | sign
  | zero
  | whole
  | point
  | fraction
  | mark
  | markSign
  | exponent
deriving DecidableEq

/-- A numeral under way, with its written exponent. -/
structure Numbering where
  place : Place
  numeral : Number.Numeral
  below : Bool := false
  power : Nat := 0

/-- Where in an escape a string is.  `hex` holds the offset of the first digit,
the octets taken, the value and whether all were digits so far; `high` is a
leading surrogate that waits for its partner. -/
inductive Escape where
  | plain
  | slash
  | hex (start taken value : Nat) (good : Bool) (high : Option Nat)
  | pairSlash (high : Nat)
  | pairMark (high : Nat)

inductive Mode where
  | value (due : Due)
  | after
  | finished (v : Json)
  | key (first : Bool)
  | colon
  | word (rest : List Char) (v : Json)
  | number (n : Numbering)
  | string (isKey : Bool) (done : List Char) (escape : Escape)

structure State where
  stack : List Frame
  mode : Mode

/-- A fault, and the offset just behind the octet that shows it. -/
abbrev Stop := Fault × Nat

def State.start : State := { stack := [], mode := .value .plain }

/-- A complete value goes into the innermost container. -/
def State.push (s : State) (v : Json) : State :=
  match s.stack with
  | [] => { s with mode := .finished v }
  | .list done :: rest => { stack := .list (v :: done) :: rest, mode := .after }
  | .object done key :: rest => { stack := .object (insert key v done) key :: rest, mode := .after }

/-- Closes the innermost container. -/
def State.close (s : State) : State :=
  match s.stack with
  | [] => s
  | .list done :: rest => State.push { s with stack := rest } (.arr done.reverse)
  | .object done _ :: rest => State.push { s with stack := rest } (.obj done)

/-- Opens a container, if the nesting allows one more. -/
def State.nest (limit pos : Nat) (s : State) (f : Frame) (m : Mode) : Except Stop State :=
  if s.stack.length < limit then .ok { stack := f :: s.stack, mode := m }
  else .error (.tooDeep, pos + 1)

def isSpace (c : Char) : Bool := c == ' ' || c == '\t' || c == '\n' || c == '\r'

/-- The first character of a value. -/
def State.begin (limit pos : Nat) (s : State) (c : Char) : Except Stop State :=
  match c with
  | '"' => .ok { s with mode := .string false [] .plain }
  | '[' => s.nest limit pos (.list []) (.value .firstItem)
  | '\x7b' => s.nest limit pos (.object [] "") (.key true)
  | 'n' => .ok { s with mode := .word ['u', 'l', 'l'] .null }
  | 't' => .ok { s with mode := .word ['r', 'u', 'e'] (.bool true) }
  | 'f' => .ok { s with mode := .word ['a', 'l', 's', 'e'] (.bool false) }
  | '-' => .ok { s with mode := .number { place := .sign, numeral := { negative := true } } }
  | '0' => .ok { s with mode := .number { place := .zero, numeral := {} } }
  | c =>
      match Text.digit? 10 c with
      | some d => .ok { s with mode := .number { place := .whole, numeral := { significand := d } } }
      | none => .error (.noValue, pos + 1)

/-- A character behind a complete value. -/
def State.next (pos : Nat) (s : State) (c : Char) : Except Stop State :=
  if isSpace c then .ok s
  else
    match s.mode, s.stack with
    | .after, .list _ :: _ =>
        if c == ',' then .ok { s with mode := .value .nextItem }
        else if c == ']' then .ok s.close
        else .error (.noCommaOrBracket, pos + 1)
    | .after, .object _ _ :: _ =>
        if c == ',' then .ok { s with mode := .key false }
        else if c == '\x7d' then .ok s.close
        else .error (.noCommaOrBrace, pos + 1)
    | _, _ => .error (.trailing, pos + 1)

/-- The number that a numeral makes, when it may end where it is. -/
def Numbering.finish (n : Numbering) (pos : Nat) : Except Stop Json :=
  let value :=
    match n.place with
    | .fraction => n.numeral.float? n.numeral.exponent
    | .exponent =>
        n.numeral.float? (if n.below then n.numeral.exponent - n.power else n.numeral.exponent + n.power)
    | _ => n.numeral.integer?
  match value with
  | some v => .ok (.num v)
  | none => .error (.numberTooLarge, pos)

/-- The first exponent that is not kept. -/
def powerBound : Nat := 2147483648

/-- One more digit of the exponent.  Past 31 bits the outcome is known: too
large, or a zero whatever follows. -/
def Numbering.exponentDigit (n : Numbering) (pos d : Nat) : Except Stop Numbering :=
  let p := n.power * 10 + d
  if p < powerBound || n.numeral.significand == 0 || n.below then
    .ok { n with place := .exponent, power := min p powerBound }
  else .error (.numberTooLarge, pos + 1)

/-- One more character of a numeral; `none` when the numeral ends before it. -/
def Numbering.step (n : Numbering) (pos : Nat) (c : Char) : Except Stop (Option Numbering) :=
  let bad : Except Stop (Option Numbering) := .error (.invalidNumber, pos + 1)
  let markOrEnd : Except Stop (Option Numbering) :=
    if c == 'e' || c == 'E' then .ok (some { n with place := .mark }) else .ok none
  let pointOrEnd : Except Stop (Option Numbering) :=
    if c == '.' then .ok (some { n with place := .point }) else markOrEnd
  match n.place, Text.digit? 10 c with
  | .sign, some 0 => .ok (some { n with place := .zero })
  | .sign, some d => .ok (some { n with place := .whole, numeral := n.numeral.digit d })
  | .sign, none => bad
  | .zero, some _ => bad
  | .zero, none => pointOrEnd
  | .whole, some d => .ok (some { n with numeral := n.numeral.digit d })
  | .whole, none => pointOrEnd
  | .point, some d => .ok (some { n with place := .fraction, numeral := n.numeral.fractionDigit d })
  | .point, none => bad
  | .fraction, some d => .ok (some { n with numeral := n.numeral.fractionDigit d })
  | .fraction, none => markOrEnd
  | .mark, some d => (n.exponentDigit pos d).map some
  | .mark, none =>
      if c == '+' then .ok (some { n with place := .markSign })
      else if c == '-' then .ok (some { n with place := .markSign, below := true })
      else bad
  | .markSign, some d => (n.exponentDigit pos d).map some
  | .markSign, none => bad
  | .exponent, some d => (n.exponentDigit pos d).map some
  | .exponent, none => .ok none

/-- A string ends: it is a key, or a value. -/
def State.endString (s : State) (isKey : Bool) (done : List Char) : State :=
  let text := String.ofList done.reverse
  match isKey, s.stack with
  | true, .object members _ :: rest => { stack := .object members text :: rest, mode := .colon }
  | _, _ => s.push (.str text)

/-- A complete unit of a `u` escape, which ends at offset `stop`. -/
def unitStep (done : List Char) (stop value : Nat) (high : Option Nat) :
    Except Stop (List Char × Escape) :=
  let low := 0xDC00 ≤ value && value ≤ 0xDFFF
  match high with
  | some h =>
      if low then
        .ok (Char.ofNat (0x10000 + (h - 0xD800) * 0x400 + (value - 0xDC00)) :: done, .plain)
      else .error (.loneSurrogate, stop)
  | none =>
      if low then .error (.loneSurrogate, stop)
      else if 0xD800 ≤ value && value ≤ 0xDBFF then .ok (done, .pairSlash value)
      else .ok (Char.ofNat value :: done, .plain)

/-- The character that a one-letter escape stands for. -/
def shortEscape? : Char → Option Char
  | '"' => some '"'
  | '\\' => some '\\'
  | '/' => some '/'
  | 'b' => some '\x08'
  | 'f' => some '\x0c'
  | 'n' => some '\n'
  | 'r' => some '\r'
  | 't' => some '\t'
  | _ => none

/-- One more character inside an escape of a string. -/
def escapeStep (pos : Nat) (done : List Char) (escape : Escape) (c : Char) :
    Except Stop (List Char × Escape) :=
  match escape with
  | .plain => .ok (c :: done, .plain)
  | .slash =>
      match shortEscape? c with
      | some e => .ok (e :: done, .plain)
      | none =>
          if c == 'u' then .ok (done, .hex (pos + 1) 0 0 true none)
          else .error (.invalidEscape, pos + 1)
  | .hex start taken value good high =>
      let taken := taken + c.utf8Size
      let good := good && (Text.digit? 16 c).isSome
      let value := value * 16 + (Text.digit? 16 c).getD 0
      if taken < 4 then .ok (done, .hex start taken value good high)
      else if good then unitStep done (start + 4) value high
      else .error (.invalidEscape, start + 4)
  | .pairSlash h =>
      if c == '\\' then .ok (done, .pairMark h) else .error (.brokenPair, pos + 1)
  | .pairMark h =>
      if c == 'u' then .ok (done, .hex (pos + 1) 0 0 true (some h))
      else .error (.brokenPair, pos + 1)

/-- One character, which starts at offset `pos`. -/
def State.step (limit pos : Nat) (s : State) (c : Char) : Except Stop State :=
  match s.mode with
  | .value due =>
      if isSpace c then .ok s
      else if c == ']' && due == .firstItem then .ok s.close
      else if c == ']' && due == .nextItem then .error (.trailingComma, pos + 1)
      else s.begin limit pos c
  | .after => s.next pos c
  | .finished _ => s.next pos c
  | .key first =>
      if isSpace c then .ok s
      else if c == '"' then .ok { s with mode := .string true [] .plain }
      else if c == '\x7d' then if first then .ok s.close else .error (.trailingComma, pos + 1)
      else .error (.keyNoString, pos + 1)
  | .colon =>
      if isSpace c then .ok s
      else if c == ':' then .ok { s with mode := .value .plain }
      else .error (.noColon, pos + 1)
  | .word rest v =>
      match rest with
      | [] => .error (.wrongWord, pos + 1)
      | [w] => if c == w then .ok (s.push v) else .error (.wrongWord, pos + 1)
      | w :: more =>
          if c == w then .ok { s with mode := .word more v } else .error (.wrongWord, pos + 1)
  | .number n => do
      match ← n.step pos c with
      | some n => .ok { s with mode := .number n }
      | none => (s.push (← n.finish pos)).next pos c
  | .string isKey done .plain =>
      if c == '"' then .ok (s.endString isKey done)
      else if c == '\\' then .ok { s with mode := .string isKey done .slash }
      else if c.toNat < 0x20 then .error (.controlCharacter, pos + 1)
      else .ok { s with mode := .string isKey (c :: done) .plain }
  | .string isKey done escape => do
      let (done, escape) ← escapeStep pos done escape c
      .ok { s with mode := .string isKey done escape }

/-- What the end of the text makes of a state without a number under way. -/
def State.ended (s : State) (pos : Nat) : Except Stop Json :=
  match s.mode, s.stack with
  | .finished v, _ => .ok v
  | .after, .list _ :: _ => .error (.endInList, pos)
  | .after, _ => .error (.endInObject, pos)
  | .value .firstItem, _ => .error (.endInList, pos)
  | .value _, _ => .error (.endInValue, pos)
  | .key true, _ => .error (.endInObject, pos)
  | .key false, _ => .error (.endInValue, pos)
  | .colon, _ => .error (.endInObject, pos)
  | .word _ _, _ => .error (.endInValue, pos)
  | .number _, _ => .error (.endInValue, pos)
  | .string _ _ _, _ => .error (.endInString, pos)

/-- The end of the text, at offset `pos`. -/
def State.finish (s : State) (pos : Nat) : Except Stop Json :=
  match s.mode with
  | .number n =>
      match n.place with
      | .zero | .whole | .fraction | .exponent => do (s.push (← n.finish pos)).ended pos
      | _ => .error (.endInValue, pos)
  | _ => s.ended pos

/-- Reads the rest of a text from offset `pos` on. -/
def run (limit : Nat) : State → Nat → List Char → Except Stop Json
  | s, pos, [] => s.finish pos
  | s, pos, c :: cs => do run limit (← s.step limit pos c) (pos + c.utf8Size) cs

/-! ## Places -/

/-- Line and column of an offset, counted from a given line and column. -/
def locate : (line column rest : Nat) → List Char → Nat × Nat
  | line, column, _, [] => (line, column)
  | line, column, rest, c :: cs =>
      if rest == 0 then (line, column)
      else if c == '\n' then locate (line + 1) 0 (rest - 1) cs
      else locate line (column + min rest c.utf8Size) (rest - c.utf8Size) cs

/-- Reads a text whose containers nest at most `limit` deep. -/
def parseWithin (limit : Nat) (s : String) : Except ParseError Json :=
  match run limit .start 0 s.toList with
  | .ok v => .ok v
  | .error (fault, offset) =>
      let (line, column) := locate 1 0 offset s.toList
      .error { fault, line, column }

/-- The levels of nesting that a message may have. -/
def nestingLimit : Nat := 127

/-- Reads a text as a document. -/
def parse (s : String) : Except ParseError Json := parseWithin nestingLimit s

end Conformance.Json
