/-
Conformance — TOML numbers, dates and times.

A value that is neither a string nor a list nor a table is one word, or a date
and a time with a blank between.  The words: the two truth values, integers in
four bases, floats, dates, times, and both joined.  An integer is a signed
64-bit word.  Of a float only matters whether it is one: a positive one beyond
the range of doubles is not.
-/
import Conformance.Text.Digits
import Conformance.Toml.Document
import Conformance.Word

namespace Conformance.Toml

/-! ## Digits -/

/-- Digits of a base, with single underscores between them. -/
def grouped (base : Nat) : List Char → Bool
  | [] => false
  | [c] => Text.isDigit base c
  | c :: '_' :: rest => Text.isDigit base c && grouped base rest
  | c :: rest => Text.isDigit base c && grouped base rest

/-- The number that digits stand for in a base, underscores left out. -/
def numberIn (base : Nat) (cs : List Char) : Nat := Text.numberIn base (cs.filter (· ≠ '_'))

/-- A number without needless zeros in front. -/
def isWhole : List Char → Bool
  | ['0'] => true
  | '0' :: _ => false
  | cs => grouped 10 cs

/-- The sign, and what is behind it. -/
def splitSign : List Char → Bool × List Char
  | '-' :: cs => (true, cs)
  | '+' :: cs => (false, cs)
  | cs => (false, cs)

/-! ## Integers -/

/-- A signed 64-bit word. -/
def word (i : Int) : Option Item :=
  if -(Word.signedBound : Int) ≤ i ∧ i < Word.signedBound then some (.integer i) else none

def based (base : Nat) (cs : List Char) : Option Item :=
  if grouped base cs then word (numberIn base cs) else none

def integer (cs : List Char) : Option Item :=
  match cs with
  | '0' :: 'x' :: digits => based 16 digits
  | '0' :: 'o' :: digits => based 8 digits
  | '0' :: 'b' :: digits => based 2 digits
  | _ =>
      let (negative, digits) := splitSign cs
      if isWhole digits then
        let n : Int := numberIn 10 digits
        word (if negative then -n else n)
      else none

/-! ## Floats -/

/-- The least number that is rounded to no double: halfway from the largest
double to the next power of two. -/
def doubleEnd : Nat := Nat.pow 2 1024 - Nat.pow 2 970

/-- Whether `n · 10 ^ exponent` is beyond the range of doubles. -/
def beyondDoubles (n : Nat) (exponent : Int) : Bool :=
  let size := (Nat.toDigits 10 n).length + exponent
  if n = 0 ∨ size < 308 then false
  else if size > 310 then true
  else if exponent ≥ 0 then doubleEnd ≤ n * Nat.pow 10 exponent.toNat
  else doubleEnd * Nat.pow 10 (-exponent).toNat ≤ n

/-- The characters up to a mark, and those behind it. -/
def splitAtMark (mark : Char → Bool) (cs : List Char) : List Char × Option (List Char) :=
  match cs.dropWhile (! mark ·) with
  | [] => (cs, none)
  | _ :: rest => (cs.takeWhile (! mark ·), some rest)

/-- A fraction or an exponent, each if it is there. -/
def isTail (sign : Bool) : Option (List Char) → Bool
  | none => true
  | some cs => grouped 10 (if sign then (splitSign cs).2 else cs)

/-- An exponent as a number. -/
def exponentOf : Option (List Char) → Int
  | none => 0
  | some cs =>
      let (negative, digits) := splitSign cs
      let n : Int := numberIn 10 digits
      if negative then -n else n

def float (cs : List Char) : Option Item :=
  let (negative, body) := splitSign cs
  if body = ['i', 'n', 'f'] ∨ body = ['n', 'a', 'n'] then some .float
  else
    let (mantissa, exponent) := splitAtMark (fun c => c == 'e' || c == 'E') body
    let (whole, fraction) := splitAtMark (· == '.') mantissa
    if (exponent.isSome || fraction.isSome) && isWhole whole && isTail false fraction
        && isTail true exponent then
      let decimals := (fraction.getD []).filter (· ≠ '_')
      let n := numberIn 10 (whole ++ decimals)
      if !negative && beyondDoubles n (exponentOf exponent - decimals.length) then none
      else some .float
    else none

/-! ## Dates and times -/

/-- A number of exactly `n` digits, and what is behind it. -/
def fixedNumber (n : Nat) (cs : List Char) : Option (Nat × List Char) :=
  let digits := cs.take n
  if digits.length = n ∧ digits.all Char.isDigit then some (numberIn 10 digits, cs.drop n)
  else none

/-- What is behind a character that must come next. -/
def skip (c : Char) : List Char → Option (List Char)
  | d :: rest => if c = d then some rest else none
  | [] => none

def isLeap (year : Nat) : Bool := year % 4 = 0 ∧ (year % 100 ≠ 0 ∨ year % 400 = 0)

def daysIn (year month : Nat) : Nat :=
  if month = 2 then (if isLeap year then 29 else 28)
  else if month = 4 ∨ month = 6 ∨ month = 9 ∨ month = 11 then 30
  else 31

/-- What is behind a date. -/
def date (cs : List Char) : Option (List Char) := do
  let (year, cs) ← fixedNumber 4 cs
  let (month, cs) ← fixedNumber 2 (← skip '-' cs)
  let (day, cs) ← fixedNumber 2 (← skip '-' cs)
  if 1 ≤ month ∧ month ≤ 12 ∧ 1 ≤ day ∧ day ≤ daysIn year month then some cs else none

/-- What is behind the fraction of a second, if there is one. -/
def secondFraction : List Char → Option (List Char)
  | '.' :: cs =>
      if (cs.takeWhile Char.isDigit).isEmpty then none else some (cs.dropWhile Char.isDigit)
  | cs => some cs

/-- What is behind a time. -/
def time (cs : List Char) : Option (List Char) := do
  let (hour, cs) ← fixedNumber 2 cs
  let (minute, cs) ← fixedNumber 2 (← skip ':' cs)
  let (second, cs) ← fixedNumber 2 (← skip ':' cs)
  if hour ≤ 23 ∧ minute ≤ 59 ∧ second ≤ 60 then secondFraction cs else none

/-- Whether a text is the offset of a time, or empty. -/
def isOffset (cs : List Char) : Bool :=
  match cs with
  | [] | ['Z'] | ['z'] => true
  | sign :: cs =>
      (sign == '+' || sign == '-')
        && (match fixedNumber 2 cs with
            | some (hour, ':' :: cs) =>
                hour ≤ 23 && (match fixedNumber 2 cs with
                  | some (minute, []) => minute ≤ 59
                  | _ => false)
            | _ => false)

/-- Whether a text is a time with or without an offset. -/
def isOffsetTime (cs : List Char) : Bool := (time cs).any isOffset

/-- Whether a text is a date. -/
def isDate (cs : List Char) : Bool :=
  match date cs with
  | some [] => true
  | _ => false

def isMoment (cs : List Char) : Bool :=
  match date cs with
  | some [] => true
  | some ('T' :: rest) | some ('t' :: rest) => isOffsetTime rest
  | some _ => false
  | none => time cs = some []

/-! ## Words -/

/-- A character of a word. -/
def isWordChar (c : Char) : Bool :=
  c.isDigit || ('a' ≤ c && c ≤ 'z') || ('A' ≤ c && c ≤ 'Z') || c == '+' || c == '-' || c == '_'
    || c == '.' || c == ':'

/-- The value of a word. -/
def wordItem (w : List Char) : Option Item :=
  if w = ['t', 'r', 'u', 'e'] then some (.boolean true)
  else if w = ['f', 'a', 'l', 's', 'e'] then some (.boolean false)
  else if isMoment w then some .moment
  else (integer w).or (float w)

/-- The value at the start of a text that starts with a word.  A date may be
followed by a blank and a time. -/
def scalar (cs : List Char) : Option (Item × List Char) :=
  let w := cs.takeWhile isWordChar
  let rest := cs.dropWhile isWordChar
  match rest with
  | ' ' :: behind =>
      if isDate w && isOffsetTime (behind.takeWhile isWordChar) then
        some (.moment, behind.dropWhile isWordChar)
      else (wordItem w).map fun item => (item, rest)
  | _ => (wordItem w).map fun item => (item, rest)

end Conformance.Toml
