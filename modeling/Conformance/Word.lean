/-
Conformance — words of 64 bits.
-/

namespace Conformance.Word

/-- The first natural that is no unsigned word. -/
abbrev bound : Nat := 18446744073709551616

/-- The first natural that is no signed word. -/
abbrev signedBound : Nat := 9223372036854775808

end Conformance.Word
