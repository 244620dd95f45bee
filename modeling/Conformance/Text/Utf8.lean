/-
Conformance — UTF-8.

A text as octets, and octets as a text.  Reading goes one octet at a time: a
sequence that cannot go on is closed as one ill-formed part, so the parts are
the maximal ones, and the octet that broke it starts afresh.  The two ways to
read are views of the same parts: strict reading refuses when any part is
ill-formed, lossy reading shows each as U+FFFD.
-/

namespace Conformance.Utf8

/-- The octets of a text. -/
def encode (s : String) : List UInt8 := s.toList.flatMap String.utf8EncodeChar

/-- A character that has started: its value so far, how many octets it still
owes, and the least and the greatest octet that may come next. -/
structure Partial where
  value : Nat
  owed : Nat
  least : Nat := 0x80
  most : Nat := 0xBF

/-- One part of a sequence of octets: a character, or an ill-formed part. -/
inductive Piece where
  | char (c : Char)
  | broken
deriving DecidableEq

/-- What the first octet of a character promises. -/
inductive Lead where
  | single (c : Char)
  | start (p : Partial)
  | broken

/-- The promise of a first octet. -/
def lead (b : Nat) : Lead :=
  if b < 0x80 then .single (Char.ofNat b)
  else if b < 0xC2 then .broken
  else if b < 0xE0 then .start { value := b - 0xC0, owed := 1 }
  else if b == 0xE0 then .start { value := 0, owed := 2, least := 0xA0 }
  else if b == 0xED then .start { value := 0xD, owed := 2, most := 0x9F }
  else if b < 0xF0 then .start { value := b - 0xE0, owed := 2 }
  else if b == 0xF0 then .start { value := 0, owed := 3, least := 0x90 }
  else if b < 0xF4 then .start { value := b - 0xF0, owed := 3 }
  else if b == 0xF4 then .start { value := 4, owed := 3, most := 0x8F }
  else .broken

/-- The pieces of a sequence of octets, after a character that may have started. -/
def pieces : Option Partial → List UInt8 → List Piece
  | none, [] => []
  | some _, [] => [.broken]
  | none, b :: bs => first b.toNat bs
  | some p, b :: bs =>
      let n := b.toNat
      if p.least ≤ n && n ≤ p.most then
        let value := p.value * 64 + (n - 0x80)
        if p.owed ≤ 1 then .char (Char.ofNat value) :: pieces none bs
        else pieces (some { value := value, owed := p.owed - 1 }) bs
      else .broken :: first n bs
where
  /-- The pieces when octet `n` starts afresh. -/
  first (n : Nat) (bs : List UInt8) : List Piece :=
    match lead n with
    | .single c => .char c :: pieces none bs
    | .start p => pieces (some p) bs
    | .broken => .broken :: pieces none bs

/-- The character of a piece that is one. -/
def Piece.char? : Piece → Option Char
  | .char c => some c
  | .broken => none

/-- The text of well-formed octets. -/
def decode? (bs : List UInt8) : Option String :=
  ((pieces none bs).mapM Piece.char?).map String.ofList

/-- The text of any octets, with U+FFFD for each ill-formed part. -/
def decodeLossy (bs : List UInt8) : String :=
  String.ofList ((pieces none bs).map fun p => p.char?.getD (Char.ofNat 0xFFFD))

end Conformance.Utf8
