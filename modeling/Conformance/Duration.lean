/-
Conformance — lengths of time.

A length of time is a count of nanoseconds, an instant the count since the
clock started.  The texts: the length with its largest fitting unit and an
exact fraction, and the length in seconds as a double.
-/
import Conformance.Decimal.Fixed
import Conformance.Word

namespace Conformance

/-- A length of time, in nanoseconds. -/
abbrev Duration := Nat

/-- A point in time, in nanoseconds since the clock started. -/
abbrev Instant := Nat

namespace Duration

def ofMillis (ms : Nat) : Duration := ms * 1000000

def ofSecs (secs : Nat) : Duration := secs * 1000000000

/-- The sum of lengths of time. -/
def total (ds : List Duration) : Duration := ds.foldr (· + ·) 0

/-- A sum under way: seconds that fit a word, and nanoseconds that are carried over to them only
when they would not fit a word of their own. -/
structure Tally where
  secs : Nat := 0
  nanos : Nat := 0

namespace Tally

/-- Seconds on top; `none` when a word has no room for them. -/
def addSecs (t : Tally) (secs : Nat) : Option Tally :=
  if t.secs + secs < Word.bound then some { t with secs := t.secs + secs } else none

/-- Nanoseconds that make up seconds become seconds. -/
def carry (t : Tally) : Option Tally :=
  { t with nanos := t.nanos % 1000000000 }.addSecs (t.nanos / 1000000000)

def addNanos (t : Tally) (nanos : Nat) : Option Tally :=
  if t.nanos + nanos < Word.bound then some { t with nanos := t.nanos + nanos }
  else t.carry.map fun c => { c with nanos := c.nanos + nanos }

def add (t : Tally) (d : Duration) : Option Tally :=
  (t.addSecs (d / 1000000000)).bind (·.addNanos (d % 1000000000))

/-- The length of time so far. -/
def value (t : Tally) : Nat := t.secs * 1000000000 + t.nanos

end Tally

/-- The sum of lengths of time; `none` when it has no room. -/
def sum? (ds : List Duration) : Option Duration :=
  ((ds.foldlM Tally.add {}).bind Tally.carry).map Tally.value

/-- Whole milliseconds. -/
def millis (d : Duration) : Nat := d / 1000000

/-- A count of some unit, the exact fraction without zeros at its end, and the
unit's `name`; `places` is the number of digits of a full fraction. -/
def inUnit (d : Duration) (places : Nat) (name : String) : String :=
  let whole := toString (d / Nat.pow 10 places)
  let fraction := (Nat.toDigits 10 (d % Nat.pow 10 places + Nat.pow 10 places)).drop 1
  let kept := (fraction.reverse.dropWhile (· == '0')).reverse
  if kept.isEmpty then whole ++ name else whole ++ "." ++ String.ofList kept ++ name

/-- The text of a length of time, in the largest of seconds, milliseconds,
microseconds and nanoseconds of which it holds one. -/
def text (d : Duration) : String :=
  if d ≥ 1000000000 then inUnit d 9 "s"
  else if d ≥ 1000000 then inUnit d 6 "ms"
  else if d ≥ 1000 then inUnit d 3 "µs"
  else inUnit d 0 "ns"

/-- Seconds as a double: the whole seconds and the fraction are rounded apart,
then added. -/
def seconds (d : Duration) : Float :=
  (d / 1000000000).toUInt64.toFloat + (d % 1000000000).toUInt64.toFloat / 1e9

/-- Seconds with a fixed number of places. -/
def fixedSeconds (places : Nat) (d : Duration) : String :=
  Decimal.fixed places (seconds d)

end Duration

end Conformance
