/-
Conformance — the shortest decimal that reads back.

Of the decimals that round to a given double, the ones with the fewest digits,
and of those the nearest.  For each number of digits in turn the two
neighbours of the value on that decimal grid are tried; if any point of a grid
rounds to the double, so does one of the two.
-/
import Conformance.Decimal.Binary

namespace Conformance.Decimal

/-- `digits · 10^exponent`. -/
structure Digits where
  digits : Nat
  exponent : Int
deriving DecidableEq, Repr

/-- The reals that round to a double, over a common denominator: the two ends,
the value itself, and whether the ends belong to it. -/
structure Interval where
  low : Nat
  value : Nat
  high : Nat
  den : Nat
  closed : Bool

/-- The ends are midway to the neighbours, and belong to an even value. -/
def Interval.of (b : Binary) : Interval :=
  let (n, d) := power 2 (b.q - 2)
  { low := (4 * b.m - if b.edge then 1 else 2) * n, value := 4 * b.m * n,
    high := (4 * b.m + 2) * n, den := d, closed := b.m % 2 == 0 }

/-- Whether `digits · 10^exponent` rounds to the double. -/
def Interval.holds (i : Interval) (d : Digits) : Bool :=
  let (p, q) := power 10 d.exponent
  let x := d.digits * p * i.den
  if i.closed then i.low * q ≤ x && x ≤ i.high * q
  else i.low * q < x && x < i.high * q

/-- The neighbours of the value with the given exponent: the lower one first. -/
def Interval.below (i : Interval) (exponent : Int) : Digits :=
  let (p, q) := power 10 exponent
  { digits := i.value * q / (i.den * p), exponent := exponent }

/-- Whether the lower neighbour is nearer than the one above it; halfway, the
even one counts as nearer. -/
def Interval.nearerBelow (i : Interval) (d : Digits) : Bool :=
  let (p, q) := power 10 d.exponent
  let twice := 2 * i.value * q
  let middle := (2 * d.digits + 1) * p * i.den
  twice < middle || (twice == middle && d.digits % 2 == 0)

/-- The point of one grid that rounds to the double, the nearer of two. -/
def Interval.onGrid (i : Interval) (exponent : Int) : Option Digits :=
  let lower := i.below exponent
  let upper := { lower with digits := lower.digits + 1 }
  match i.holds lower, i.holds upper with
  | true, true => some (if i.nearerBelow lower then lower else upper)
  | true, false => some lower
  | false, true => some upper
  | false, false => none

/-- The exponent of the leading digit: `10^e ≤ x < 10^(e+1)`, for `x` positive. -/
def leadingExponent (i : Interval) : Int :=
  let whole := i.value / i.den
  if whole != 0 then (Nat.toDigits 10 whole).length - 1
  else
    match (List.range 400).find? fun j => i.den ≤ i.value * Nat.pow 10 (j + 1) with
    | some j => -((j : Int) + 1)
    | none => -400

/-- Drops the zeros at the end. -/
def Digits.normal (d : Digits) : Nat → Digits
  | 0 => d
  | fuel + 1 =>
      if d.digits != 0 && d.digits % 10 == 0 then
        Digits.normal { digits := d.digits / 10, exponent := d.exponent + 1 } fuel
      else d

/-- The shortest decimal of a magnitude. -/
def shortest (b : Binary) : Digits :=
  if b.m == 0 then { digits := 0, exponent := 0 }
  else
    let i := Interval.of b
    let e := leadingExponent i
    match (List.range 18).findSome? fun (n : Nat) => i.onGrid (e - (n : Int)) with
    | some d => d.normal 20
    | none => i.below (e - 17)

end Conformance.Decimal
