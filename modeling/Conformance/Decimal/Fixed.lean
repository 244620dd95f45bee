/-
Conformance — decimals with a fixed number of places.

A quotient of naturals is rounded to the nearest natural, halves to the even
one; with the value scaled by a power of ten, that prints any double with the
places asked for from its exact binary value.
-/
import Conformance.Decimal.Binary

namespace Conformance.Decimal

/-- The natural nearest to `num / den`; a half goes to the even neighbour. -/
def roundDiv (num den : Nat) : Nat :=
  let lower := num / den
  let rest := 2 * (num % den)
  if rest < den || (rest == den && lower % 2 == 0) then lower else lower + 1

/-- `scaled / 10^places`, written with a point. -/
def withPoint (scaled places : Nat) : String :=
  let whole := toString (scaled / Nat.pow 10 places)
  if places == 0 then whole
  else
    let fraction := toString (scaled % Nat.pow 10 places)
    let zeros := String.ofList (List.replicate (places - fraction.length) '0')
    whole ++ "." ++ zeros ++ fraction

/-- A finite double with `places` digits after the point. -/
def fixed (places : Nat) (x : Float) : String :=
  let b := Binary.ofFloat x
  let (n, d) := power 2 b.q
  let sign := if isNegative x then "-" else ""
  sign ++ withPoint (roundDiv (b.m * n * Nat.pow 10 places) d) places

end Conformance.Decimal
