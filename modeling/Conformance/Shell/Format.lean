/-
Conformance — what scripts write.

Two commands write their arguments: one with blanks between and a newline
behind, one after a format, which is used again as long as arguments are left.
-/
import Conformance.Shell.Word

namespace Conformance.Shell

def octetsOf (s : String) : List UInt8 := Utf8.encode s

/-! ## Words in a row -/

/-- Options of `echo` in front of its words. -/
structure EchoOptions where
  newline : Bool := true
  escapes : Bool := false

def isEchoOption (s : String) : Bool :=
  match s.toList with
  | '-' :: c :: cs => (c :: cs).all fun c => c == 'n' || c == 'e' || c == 'E'
  | _ => false

/-- The letters of an option word. -/
def EchoOptions.read (o : EchoOptions) (s : String) : EchoOptions :=
  s.toList.foldl
    (fun o c =>
      if c = 'n' then { o with newline := false }
      else if c = 'e' then { o with escapes := true }
      else if c = 'E' then { o with escapes := false }
      else o)
    o

/-- The arguments with blanks between. -/
def echo (args : List String) : List UInt8 :=
  let o := (args.takeWhile isEchoOption).foldl EchoOptions.read {}
  let text := " ".intercalate (args.dropWhile isEchoOption)
  (if o.escapes then unescape text.length text.toList else octetsOf text)
    ++ (if o.newline then [10] else [])

/-! ## Formats -/

/-- How an argument is written. -/
structure Directive where
  left : Bool := false
  zeros : Bool := false
  width : Nat := 0
  precision : Option Nat := none

/-- Fills up to the width. -/
def Directive.fill (d : Directive) (octets : List UInt8) : List UInt8 :=
  let missing := d.width - octets.length
  if d.left then octets ++ List.replicate missing 32
  else List.replicate missing (if d.zeros then 48 else 32) ++ octets

/-- The flags, width and precision behind a percent sign. -/
def directive (cs : List Char) : Directive × List Char :=
  let flags := cs.takeWhile fun c => c == '-' || c == '0' || c == '+' || c == ' ' || c == '#'
  let cs := cs.drop flags.length
  let width := cs.takeWhile Char.isDigit
  let cs := cs.drop width.length
  let d : Directive := { left := flags.contains '-', zeros := flags.contains '0'
                         width := Text.numberIn 10 width }
  match cs with
  | '.' :: cs =>
      let digits := cs.takeWhile Char.isDigit
      ({ d with precision := some (Text.numberIn 10 digits) }, cs.drop digits.length)
  | _ => (d, cs)

/-- An argument as a directive of the letter `c` writes it. -/
def Directive.write (d : Directive) (c : Char) (arg : String) : List UInt8 :=
  let number := (arg.toInt?).getD 0
  let cut (octets : List UInt8) := match d.precision with
    | some n => octets.take n
    | none => octets
  if c = 's' then d.fill (cut (octetsOf arg))
  else if c = 'b' then d.fill (cut (unescape arg.length arg.toList))
  else if c = 'c' then d.fill ((octetsOf arg).take 1)
  else if c = 'x' then d.fill (octetsOf (String.ofList (Nat.toDigits 16 number.toNat)))
  else if c = 'o' then d.fill (octetsOf (String.ofList (Nat.toDigits 8 number.toNat)))
  else d.fill (octetsOf (toString number))

/-- A format with its arguments put in, and the arguments that are left. -/
def formatOnce : Nat → List Char → List String → List UInt8 × List String
  | 0, _, args => ([], args)
  | fuel + 1, cs, args =>
      match cs with
      | [] => ([], args)
      | '\\' :: rest =>
          let (octets, rest) := escape rest
          let (more, args) := formatOnce fuel rest args
          (octets ++ more, args)
      | '%' :: '%' :: rest =>
          let (more, args) := formatOnce fuel rest args
          (37 :: more, args)
      | '%' :: rest =>
          match directive rest with
          | (d, c :: rest) =>
              let octets := d.write c (args.head?.getD "")
              let (more, args) := formatOnce fuel rest args.tail
              (octets ++ more, args)
          | (_, []) => ([], args)
      | c :: rest =>
          let (more, args) := formatOnce fuel rest args
          (charOctets c ++ more, args)

/-- A format, used until no argument is left. -/
def formatAll : Nat → List Char → List String → List UInt8
  | 0, _, _ => []
  | fuel + 1, format, args =>
      let (octets, rest) := formatOnce (format.length + 1) format args
      if rest.isEmpty ∨ rest.length = args.length then octets
      else octets ++ formatAll fuel format rest

def printf (format : String) (args : List String) : List UInt8 :=
  formatAll (args.length + 1) format.toList args

end Conformance.Shell
