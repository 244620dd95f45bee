/-
Conformance — lines of octets.

A stream is cut at each newline.  What follows the last newline is a line too,
unless there is nothing.
-/
import Conformance.Text.Utf8

namespace Conformance.Text

def newline : UInt8 := 10

def carriageReturn : UInt8 := 13

/-- The pieces between newlines, each without its newline; the last one is what
follows the last newline. -/
def splitLines : List UInt8 → List (List UInt8)
  | [] => [[]]
  | b :: bs =>
      if b = newline then [] :: splitLines bs
      else
        match splitLines bs with
        | [] => [[b]]
        | first :: rest => (b :: first) :: rest

/-- A line without one carriage return at its end. -/
def chomp (bs : List UInt8) : List UInt8 :=
  if bs.getLast? = some carriageReturn then bs.dropLast else bs

/-- The lines of a stream.  A line that a newline ended loses one carriage
return in front of it. -/
def lines (bs : List UInt8) : List (List UInt8) :=
  let pieces := splitLines bs
  let rest := pieces.getLast?.getD []
  pieces.dropLast.map chomp ++ (if rest.isEmpty then [] else [rest])

/-- The texts of the lines of a stream; a line that is no text is `none`. -/
def textLines (bs : List UInt8) : List (Option String) := (lines bs).map Utf8.decode?

/-- Cutting a stream never gives no piece at all. -/
theorem splitLines_ne_nil (bs : List UInt8) : splitLines bs ≠ [] := by
  cases bs with
  | nil => simp [splitLines]
  | cons b bs =>
    unfold splitLines
    split
    · simp
    · split <;> simp

end Conformance.Text
