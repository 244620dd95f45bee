/-
Conformance — digits.

A digit has a value in every base above it; from ten on the digits are letters,
small or capital.  An unsigned 64-bit number is written in decimal digits, with
a plus sign in front at most, and with as many zeros as one likes.
-/
import Conformance.Word

namespace Conformance.Text

/-- The value of a digit in a base of at most sixteen. -/
def digit? (base : Nat) (c : Char) : Option Nat :=
  let value :=
    if '0' ≤ c && c ≤ '9' then c.toNat - 48
    else if 'a' ≤ c && c ≤ 'f' then c.toNat - 87
    else if 'A' ≤ c && c ≤ 'F' then c.toNat - 55
    else 16
  if value < base then some value else none

def isDigit (base : Nat) (c : Char) : Bool := (digit? base c).isSome

/-- The number that digits stand for in a base. -/
def numberIn (base : Nat) (cs : List Char) : Nat :=
  cs.foldl (fun n c => n * base + (digit? base c).getD 0) 0

/-- An unsigned 64-bit number. -/
def word? (s : String) : Option Nat :=
  let digits := match s.toList with
    | '+' :: rest => rest
    | cs => cs
  if digits.isEmpty || !digits.all (isDigit 10) then none
  else
    let n := numberIn 10 digits
    if n < Word.bound then some n else none

end Conformance.Text
