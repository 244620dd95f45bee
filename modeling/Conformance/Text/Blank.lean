/-
Conformance — blank text.

The characters with the Unicode property White_Space, and a text without the
blanks at its two ends.  U+FEFF and U+200B are not blank.
-/

namespace Conformance.Text

/-- The property White_Space. -/
def isBlank (c : Char) : Bool :=
  let n := c.toNat
  (9 ≤ n && n ≤ 13) || n == 0x20 || n == 0x85 || n == 0xA0 || n == 0x1680
    || (0x2000 ≤ n && n ≤ 0x200A) || n == 0x2028 || n == 0x2029 || n == 0x202F
    || n == 0x205F || n == 0x3000

/-- The characters from the first to the last that is not blank. -/
def trimChars (s : List Char) : List Char :=
  ((s.dropWhile isBlank).reverse.dropWhile isBlank).reverse

/-- A text without blanks at its ends. -/
def trim (s : String) : String := String.ofList (trimChars s.toList)

end Conformance.Text
