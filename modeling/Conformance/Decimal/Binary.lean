/-
Conformance — the exact value of a double.

A finite double is `m · 2^q` for a natural `m` below 2^53 and an integer `q`,
with a sign.  Everything that prints a double starts from these two numbers,
so that no printed digit depends on floating-point arithmetic.
-/
import Conformance.Word

namespace Conformance.Decimal

/-- The magnitude `m · 2^q`.  `edge` marks the least value of its binade,
whose lower neighbour is only half as far away as its upper one. -/
structure Binary where
  m : Nat
  q : Int
  edge : Bool
deriving DecidableEq, Repr

/-- The fraction of a double has 52 bits. -/
def fractionBound : Nat := 4503599627370496

/-- The exponent of a double has 11 bits. -/
def exponentBound : Nat := 2048

/-- The magnitude written in the low 63 bits of a finite double. -/
def Binary.ofBits (bits : Nat) : Binary :=
  let exponent : Nat := bits / fractionBound % exponentBound
  let fraction : Nat := bits % fractionBound
  if exponent == 0 then { m := fraction, q := -1074, edge := false }
  else
    { m := fractionBound + fraction, q := (exponent : Int) - 1075,
      edge := fraction == 0 && exponent != 1 }

/-- The magnitude of a finite double. -/
def Binary.ofFloat (x : Float) : Binary := Binary.ofBits x.toBits.toNat

/-- Whether the sign bit is set; so it is for the negative zero. -/
def isNegative (x : Float) : Bool := x.toBits.toNat / Word.signedBound == 1

/-- Neither infinite nor no number. -/
def isFinite (x : Float) : Bool := x.toBits.toNat / fractionBound % exponentBound != 2047

/-- `base ^ e` as a fraction: numerator and denominator. -/
def power (base : Nat) (e : Int) : Nat × Nat :=
  if 0 ≤ e then (Nat.pow base e.toNat, 1) else (1, Nat.pow base (-e).toNat)

end Conformance.Decimal
