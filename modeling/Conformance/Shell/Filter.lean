/-
Conformance — filters.

A filter reads its input to the end, or as far as it needs, and then writes
what it makes of it.
-/
import Conformance.Shell.Format
import Conformance.Text.Lines

namespace Conformance.Shell

inductive Filter where
  | firstOctets (n : Nat)
  | firstLines (n : Nat)
  | lastOctets (n : Nat)
  | lastLines (n : Nat)
  /-- Puts other octets in the place of some. -/
  | exchange (table : List (UInt8 × UInt8))
  | without (octets : List UInt8)
  | countLines
  | countOctets

namespace Filter

/-- Lines with the newlines that end them. -/
def wholeLines (bs : List UInt8) : List (List UInt8) :=
  let pieces := Text.splitLines bs
  let rest := pieces.getLast?.getD []
  pieces.dropLast.map (· ++ [Text.newline]) ++ (if rest.isEmpty then [] else [rest])

/-- What is written for an input. -/
def output (f : Filter) (bs : List UInt8) : List UInt8 :=
  match f with
  | firstOctets n => bs.take n
  | firstLines n => ((wholeLines bs).take n).flatten
  | lastOctets n => bs.drop (bs.length - n)
  | lastLines n => ((wholeLines bs).drop ((wholeLines bs).length - n)).flatten
  | exchange table => bs.map fun b => (table.lookup b).getD b
  | without octets => bs.filter (!octets.contains ·)
  | countLines => octetsOf (toString (bs.count Text.newline) ++ "\n")
  | countOctets => octetsOf (toString bs.length ++ "\n")

/-- Whether what follows an input makes no difference. -/
def isSated (f : Filter) (bs : List UInt8) : Bool :=
  match f with
  | firstOctets n => n ≤ bs.length
  | firstLines n => n ≤ bs.count Text.newline
  | _ => false

/-- What is written for an input of zeros that never ends, where that ends. -/
def outputOfZeros? : Filter → Option (List UInt8)
  | firstOctets n => some (List.replicate n 0)
  | _ => none

/-! ## Arguments -/

/-- The octets that a set of `tr` names, with its escapes and ranges. -/
def octetSet (s : String) : List UInt8 :=
  ranges (unescape s.length s.toList)
where
  ranges : List UInt8 → List UInt8
    | a :: 45 :: b :: rest =>
        (List.range (b.toNat + 1 - a.toNat)).map (UInt8.ofNat <| a.toNat + ·) ++ ranges rest
    | a :: rest => a :: ranges rest
    | [] => []

/-- A table that takes each octet of the first set to the one at its place in
the second, the last of which is used again. -/
def table (a b : List UInt8) : List (UInt8 × UInt8) :=
  match b.getLast? with
  | some last => a.zip (b ++ List.replicate (a.length - b.length) last)
  | none => []

/-- The number of lines or octets that `head` and `tail` are asked for, and the
files. -/
def portion (lines octets : Nat → Filter) : List String → Option (Filter × List String)
  | "-n" :: n :: files => n.toNat?.map (lines ·, files)
  | "-c" :: n :: files => n.toNat?.map (octets ·, files)
  | option :: files =>
      match option.toList with
      | '-' :: 'n' :: n => (String.ofList n).toNat?.map (lines ·, files)
      | '-' :: 'c' :: n => (String.ofList n).toNat?.map (octets ·, files)
      | '-' :: n => (String.ofList n).toNat?.map (lines ·, files)
      | _ => some (lines 10, option :: files)
  | [] => some (lines 10, [])

/-- The filter of a name with its arguments, and the files that it reads in
place of its input. -/
def ofArguments? (name : String) (args : List String) : Option (Filter × List String) :=
  match name, args with
  | "head", _ => portion firstLines firstOctets args
  | "tail", _ => portion lastLines lastOctets args
  | "tr", ["-d", set] => some (without (octetSet set), [])
  | "tr", [a, b] => some (exchange (table (octetSet a) (octetSet b)), [])
  | "wc", "-l" :: files => some (countLines, files)
  | "wc", "-c" :: files => some (countOctets, files)
  | _, _ => none

/-- The names of the filters. -/
def names : List String := ["head", "tail", "tr", "wc"]

end Filter

end Conformance.Shell
