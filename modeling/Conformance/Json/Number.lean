/-
Conformance — numbers of a JSON document.

A number is an integer of a 64-bit word, signed or not, or a finite double.
Writing: integers in full, doubles with the fewest digits that read back,
positional from 1e-5 to below 1e16 and with an exponent elsewhere.

Reading goes digit by digit.  Digits are gathered in one unsigned word; what no
longer fits only moves the exponent (before the point) or is dropped (after
it).  A numeral with a point, an exponent or too many digits becomes a double
by at most a few multiplications or divisions by a power of ten, so its last
bit is not always that of the nearest double.
-/
import Conformance.Decimal.Shortest
import Conformance.Word

namespace Conformance.Json

/-- A number: an integer between `-2^63` and `2^64 - 1`, or a finite double. -/
inductive Number where
  | int (i : Int)
  | float (x : Float)

namespace Number

def beq : Number → Number → Bool
  | int i, int j => i == j
  | float x, float y => x == y
  | _, _ => false

instance : BEq Number := ⟨beq⟩

/-! ## Writing -/

/-- Digits `ds` with the point after the first `n` of them; zeros fill up. -/
def positional (ds : List Char) (n : Int) : List Char :=
  if n ≤ 0 then ['0', '.'] ++ List.replicate (-n).toNat '0' ++ ds
  else
    let k := n.toNat
    if ds.length ≤ k then ds ++ List.replicate (k - ds.length) '0' ++ ['.', '0']
    else ds.take k ++ ['.'] ++ ds.drop k

/-- Digits `ds` with the point after the first, and the exponent `e`. -/
def scientific (ds : List Char) (e : Int) : List Char :=
  let mantissa := match ds with
    | [] => []
    | [d] => [d]
    | d :: rest => d :: '.' :: rest
  let exponent := if e < 0 then '-' :: Nat.toDigits 10 (-e).toNat else '+' :: Nat.toDigits 10 e.toNat
  mantissa ++ 'e' :: exponent

/-- The text of a finite double. -/
def floatText (x : Float) : List Char :=
  let d := Decimal.shortest (Decimal.Binary.ofFloat x)
  let ds := Nat.toDigits 10 d.digits
  let point := (ds.length : Int) + d.exponent
  let magnitude :=
    if -5 < point && point ≤ 16 then positional ds point else scientific ds (point - 1)
  if Decimal.isNegative x then '-' :: magnitude else magnitude

/-- The text of a number. -/
def text : Number → List Char
  | int i => if i < 0 then '-' :: Nat.toDigits 10 i.natAbs else Nat.toDigits 10 i.natAbs
  | float x => floatText x

/-! ## Reading -/

/-- A numeral read so far. -/
structure Numeral where
  negative : Bool := false
  /-- The digits kept, as one word. -/
  significand : Nat := 0
  /-- The power of ten that the kept digits stand for. -/
  exponent : Int := 0
  /-- Set once a digit before the point no longer fitted. -/
  spilt : Bool := false
  /-- Set once a digit after the point no longer fitted. -/
  cut : Bool := false
deriving Repr, DecidableEq

/-- The word that one more digit gives, if it is still a word. -/
def push? (significand digit : Nat) : Option Nat :=
  let n := significand * 10 + digit
  if n < Word.bound then some n else none

/-- One more digit before the point. -/
def Numeral.digit (n : Numeral) (d : Nat) : Numeral :=
  match n.spilt, push? n.significand d with
  | false, some s => { n with significand := s }
  | _, _ => { n with spilt := true, exponent := n.exponent + 1 }

/-- One more digit after the point. -/
def Numeral.fractionDigit (n : Numeral) (d : Nat) : Numeral :=
  match n.cut, push? n.significand d with
  | false, some s => { n with significand := s, exponent := n.exponent - 1 }
  | _, _ => { n with cut := true }

/-- Scales by a power of ten, at most `10^308` at a time; `none` beyond the
range of doubles.  Three divisions by `10^308` leave nothing of any word. -/
def scale (x : Float) (exponent : Int) : Nat → Option Float
  | 0 => some x
  | fuel + 1 =>
      if exponent.natAbs ≤ 308 then
        let p := Float.ofScientific 1 false exponent.natAbs
        if 0 ≤ exponent then
          let y := x * p
          if Decimal.isFinite y then some y else none
        else some (x / p)
      else if x == 0 then some x
      else if 0 ≤ exponent then none
      else scale (x / 1e308) (exponent + 308) fuel

/-- The double of a numeral; `none` when it is too large. -/
def Numeral.float? (n : Numeral) (exponent : Int) : Option Number :=
  (scale n.significand.toUInt64.toFloat exponent 4).map fun x =>
    .float (if n.negative then -x else x)

/-- The number of a numeral without point and exponent.  A negative zero is a
double, and so is a magnitude that no 64-bit word holds. -/
def Numeral.integer? (n : Numeral) : Option Number :=
  if n.spilt then n.float? n.exponent
  else if !n.negative then some (.int n.significand)
  else if n.significand == 0 || n.significand > Word.signedBound then
    some (.float (-n.significand.toUInt64.toFloat))
  else some (.int (-(n.significand : Int)))

end Number

end Conformance.Json
