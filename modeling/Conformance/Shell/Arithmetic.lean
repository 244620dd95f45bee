/-
Conformance — shell arithmetic.

Expressions over integers and variables, with assignments.  A variable without
a number is zero.
-/
import Conformance.Shell.Word

namespace Conformance.Shell

/-- The variables of a script. -/
abbrev Variables := List (String × String)

namespace Variables

/-- The value of a variable; without one, the empty text. -/
def value (vs : Variables) (name : String) : String := (vs.lookup name).getD ""

def set (vs : Variables) (name value : String) : Variables :=
  (name, value) :: vs.filter (·.1 ≠ name)

def number (vs : Variables) (name : String) : Int := ((vs.value name).toInt?).getD 0

end Variables

/-- The value of an expression, the variables after it, and what follows it. -/
abbrev Evaluated := Option (Int × Variables × List Char)

def isSpace (c : Char) : Bool := isBlank c || c == '\n'

def skipSpaces (cs : List Char) : List Char := cs.dropWhile isSpace

/-- Zero for false, one for true. -/
def truth (b : Bool) : Int := if b then 1 else 0

/-- The operators with two operands at each level, from those that bind the
least on. -/
def operators : List (List (List Char × (Int → Int → Int))) := [
  [(['|', '|'], fun a b => truth (a ≠ 0 || b ≠ 0))],
  [(['&', '&'], fun a b => truth (a ≠ 0 && b ≠ 0))],
  [(['=', '='], fun a b => truth (a = b)), (['!', '='], fun a b => truth (a ≠ b))],
  [(['<', '='], fun a b => truth (a ≤ b)), (['>', '='], fun a b => truth (a ≥ b)),
    (['<'], fun a b => truth (a < b)), (['>'], fun a b => truth (a > b))],
  [(['+'], (· + ·)), (['-'], (· - ·))],
  [(['*'], (· * ·)), (['/'], Int.tdiv), (['%'], Int.tmod)]]

/-- The operator at the start of a text. -/
def operatorAt (ops : List (List Char × (Int → Int → Int))) (cs : List Char) :
    Option ((Int → Int → Int) × List Char) :=
  (ops.find? fun op => op.1.isPrefixOf cs).map fun op => (op.2, cs.drop op.1.length)

/-- The assignment behind a name: how the new value is made. -/
def assignmentAt (cs : List Char) : Option ((Int → Int → Int) × List Char) :=
  match cs with
  | '=' :: '=' :: _ => none
  | '=' :: rest => some (fun _ b => b, rest)
  | '+' :: '=' :: rest => some ((· + ·), rest)
  | '-' :: '=' :: rest => some ((· - ·), rest)
  | '*' :: '=' :: rest => some ((· * ·), rest)
  | _ => none

/-- A variable with its number changed, for `++` and `--`. -/
def bump (vs : Variables) (name : String) (amount : Int) : Variables :=
  vs.set name (toString (vs.number name + amount))

mutual

/-- An expression. -/
def expression : Nat → Variables → List Char → Evaluated
  | 0, _, _ => none
  | fuel + 1, vs, cs =>
      let cs := skipSpaces cs
      let name := String.ofList (cs.takeWhile isNameChar)
      match cs.head?.any isNameStart, assignmentAt (skipSpaces (cs.dropWhile isNameChar)) with
      | true, some (f, rest) => do
          let (b, vs, rest) ← expression fuel vs rest
          let v := f (vs.number name) b
          return (v, vs.set name (toString v), rest)
      | _, _ => operation fuel operators vs cs

/-- Operands joined by operators of the levels given. -/
def operation : Nat → List (List (List Char × (Int → Int → Int))) → Variables → List Char →
    Evaluated
  | 0, _, _, _ => none
  | fuel + 1, [], vs, cs => operand fuel vs (skipSpaces cs)
  | fuel + 1, ops :: levels, vs, cs => do
      let (a, vs, rest) ← operation fuel levels vs cs
      operationOn fuel ops levels a vs rest

/-- What is joined to an operand. -/
def operationOn : Nat → List (List Char × (Int → Int → Int)) →
    List (List (List Char × (Int → Int → Int))) → Int → Variables → List Char → Evaluated
  | 0, _, _, _, _, _ => none
  | fuel + 1, ops, levels, a, vs, cs =>
      match operatorAt ops (skipSpaces cs) with
      | none => some (a, vs, cs)
      | some (f, rest) => do
          let (b, vs, rest) ← operation fuel levels vs rest
          operationOn fuel ops levels (f a b) vs rest

/-- A number, a variable, or an expression in parentheses. -/
def operand : Nat → Variables → List Char → Evaluated
  | 0, _, _ => none
  | fuel + 1, vs, cs =>
      match cs with
      | '(' :: rest => do
          let (v, vs, rest) ← expression fuel vs rest
          match skipSpaces rest with
          | ')' :: rest => return (v, vs, rest)
          | _ => none
      | '+' :: '+' :: rest => do
          let name := String.ofList (rest.takeWhile isNameChar)
          let vs := bump vs name 1
          return (vs.number name, vs, rest.dropWhile isNameChar)
      | '-' :: '-' :: rest => do
          let name := String.ofList (rest.takeWhile isNameChar)
          let vs := bump vs name (-1)
          return (vs.number name, vs, rest.dropWhile isNameChar)
      | '-' :: rest => do
          let (v, vs, rest) ← operand fuel vs (skipSpaces rest)
          return (-v, vs, rest)
      | '!' :: rest => do
          let (v, vs, rest) ← operand fuel vs (skipSpaces rest)
          return (truth (v = 0), vs, rest)
      | '$' :: rest => operand fuel vs rest
      | c :: _ =>
          let digits := cs.takeWhile Char.isDigit
          if c.isDigit then some (Text.numberIn 10 digits, vs, cs.dropWhile Char.isDigit)
          else if isNameStart c then
            let name := String.ofList (cs.takeWhile isNameChar)
            let v := vs.number name
            match cs.dropWhile isNameChar with
            | '+' :: '+' :: rest => some (v, bump vs name 1, rest)
            | '-' :: '-' :: rest => some (v, bump vs name (-1), rest)
            | rest => some (v, vs, rest)
          else none
      | [] => none

end

/-- The value of an expression and the variables after it; nothing is zero, and
so is what is no expression. -/
def evaluate (vs : Variables) (cs : List Char) : Int × Variables :=
  match expression (16 * cs.length + 16) vs cs with
  | some (v, vs, rest) => if (skipSpaces rest).isEmpty then (v, vs) else (0, vs)
  | none => (0, vs)

end Conformance.Shell
