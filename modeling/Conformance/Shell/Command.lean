/-
Conformance — shell commands.

A script is a list of commands.  A simple command is words, perhaps with
assignments in front and redirections anywhere; the others are built from
commands.  Reading goes in two steps, from text to tokens and from tokens to
commands; a word is reserved only where a command starts.
-/
import Conformance.Shell.Word

namespace Conformance.Shell

/-- Where a redirection leads. -/
inductive Route where
  /-- A file. -/
  | file (w : Word)
  /-- Where another stream leads; a hyphen closes. -/
  | copy (w : Word)
  /-- A text, with a newline behind it. -/
  | text (w : Word)

structure Redirect where
  /-- The input is 0, the output 1, the error output 2. -/
  stream : Nat
  /-- Whether the error output goes along. -/
  both : Bool := false
  route : Route

inductive Cmd where
  | simple (assigns : List (String × Word)) (words : List Word) (redirects : List Redirect)
  /-- An expression; it succeeds unless its value is zero. -/
  | compute (expression : List Char)
  | seq (cs : List Cmd)
  | both (a b : Cmd)
  | either (a b : Cmd)
  | negate (a : Cmd)
  | pipe (a b : Cmd)
  | branch (condition yes no : Cmd)
  /-- Repeats the body while the condition succeeds, or until it does. -/
  | loop (inverted : Bool) (condition body : Cmd)
  | each (name : String) (words : List Word) (body : Cmd)
  | choose (w : Word) (cases : List (List Word × Cmd))
  | group (body : Cmd) (redirects : List Redirect)
  /-- A group that leaves the variables as they were. -/
  | apart (body : Cmd) (redirects : List Redirect)
  | define (name : String) (body : Cmd)
  /-- Left to run beside the script. -/
  | background (a : Cmd)

/-! ## Tokens -/

inductive Token where
  | word (w : Word)
  | compute (expression : List Char)
  | redirect (stream : Nat) (both : Bool) (route : Word → Route)
  /-- A mark or the end of a line. -/
  | mark (s : String)

/-- The redirection at the start of a text, in front of its word. -/
def redirectAt (cs : List Char) : Option (Token × List Char) :=
  match cs with
  | '<' :: '<' :: '<' :: rest => some (.redirect 0 false .text, rest)
  | '<' :: '&' :: rest => some (.redirect 0 false .copy, rest)
  | '<' :: rest => some (.redirect 0 false .file, rest)
  | '>' :: '&' :: rest => some (.redirect 1 false .copy, rest)
  | '>' :: '>' :: rest | '>' :: '|' :: rest | '>' :: rest => some (.redirect 1 false .file, rest)
  | '&' :: '>' :: '>' :: rest | '&' :: '>' :: rest => some (.redirect 1 true .file, rest)
  | d :: '<' :: '&' :: rest =>
      if d.isDigit then some (.redirect (d.toNat - 48) false .copy, rest) else none
  | d :: '<' :: rest =>
      if d.isDigit then some (.redirect (d.toNat - 48) false .file, rest) else none
  | d :: '>' :: '&' :: rest =>
      if d.isDigit then some (.redirect (d.toNat - 48) false .copy, rest) else none
  | d :: '>' :: '>' :: rest | d :: '>' :: rest =>
      if d.isDigit then some (.redirect (d.toNat - 48) false .file, rest) else none
  | _ => none

/-- The mark at the start of a text. -/
def markAt (cs : List Char) : Option (Token × List Char) :=
  match cs with
  | '\n' :: rest => some (.mark "\n", rest)
  | ';' :: ';' :: rest => some (.mark ";;", rest)
  | ';' :: rest => some (.mark ";", rest)
  | '&' :: '&' :: rest => some (.mark "&&", rest)
  | '&' :: rest => some (.mark "&", rest)
  | '|' :: '|' :: rest => some (.mark "||", rest)
  | '|' :: rest => some (.mark "|", rest)
  | '(' :: '(' :: rest =>
      match upToClose 0 none rest with
      | some (inside, ')' :: behind) => some (.compute inside, behind)
      | _ => some (.mark "(", '(' :: rest)
  | '(' :: rest => some (.mark "(", rest)
  | ')' :: rest => some (.mark ")", rest)
  | _ => none

/-- The tokens of a script. -/
def tokens : Nat → List Char → Option (List Token)
  | 0, _ => none
  | fuel + 1, cs =>
      match cs with
      | [] => some []
      | '\\' :: '\n' :: rest => tokens fuel rest
      | '#' :: rest => tokens fuel (rest.dropWhile (· ≠ '\n'))
      | c :: rest =>
          if isBlank c then tokens fuel rest
          else
            match (redirectAt cs).or (markAt cs) with
            | some (t, rest) => do return t :: (← tokens fuel rest)
            | none => do
                let (w, rest) ← word cs
                return .word w :: (← tokens fuel rest)

/-! ## Commands -/

/-- The reserved word that a token is. -/
def Token.reserved? : Token → Option String
  | .word w => bare? w
  | _ => none

def Token.isMark (s : String) : Token → Bool
  | .mark m => m == s
  | _ => false

/-- Drops line ends. -/
def skipLines (ts : List Token) : List Token := ts.dropWhile (Token.isMark "\n")

/-- What is behind a reserved word that must come next. -/
def expectWord (s : String) : List Token → Option (List Token)
  | t :: rest => if t.reserved? = some s then some rest else none
  | [] => none

/-- Words that end a list of commands. -/
def isTerminator (t : Token) : Bool :=
  match t.reserved? with
  | some s => ["then", "else", "elif", "fi", "do", "done", "esac", "\x7d"].contains s
  | none => t.isMark ")" || t.isMark ";;"

/-- The name and the value of an assignment. -/
def assignment? (w : Word) : Option (String × Word) :=
  let name := w.takeWhile fun p => match p with
    | .literal [c] false => isNameChar c
    | _ => false
  match bare? name, w.drop name.length with
  | some s, .literal ['='] false :: value =>
      match s.toList with
      | c :: _ => if isNameStart c then some (s, value) else none
      | [] => none
  | _, _ => none

/-- The parts of a simple command. -/
structure Simple where
  assigns : List (String × Word) := []
  words : List Word := []
  redirects : List Redirect := []

/-- A simple command. -/
def simple : Nat → Simple → List Token → Option (Simple × List Token)
  | 0, _, _ => none
  | fuel + 1, s, ts =>
      match ts with
      | .redirect stream both route :: .word w :: rest =>
          simple fuel { s with redirects := s.redirects ++ [{ stream, both, route := route w }] }
            rest
      | .redirect _ _ _ :: _ => none
      | .word w :: rest =>
          match if s.words.isEmpty then assignment? w else none with
          | some a => simple fuel { s with assigns := s.assigns ++ [a] } rest
          | none => simple fuel { s with words := s.words ++ [w] } rest
      | _ => some (s, ts)

/-- The redirections behind a compound command. -/
def redirects : Nat → List Token → Option (List Redirect × List Token)
  | 0, _ => none
  | fuel + 1, ts =>
      match ts with
      | .redirect stream both route :: .word w :: rest => do
          let (more, rest) ← redirects fuel rest
          return ({ stream, both, route := route w } :: more, rest)
      | .redirect _ _ _ :: _ => none
      | _ => some ([], ts)

/-- The words up to the end of a command. -/
def plainWords : List Token → List Word × List Token
  | .word w :: rest =>
      let (ws, rest) := plainWords rest
      (w :: ws, rest)
  | ts => ([], ts)

/-- The patterns of a case, up to its parenthesis. -/
def patterns : List Token → Option (List Word × List Token)
  | .word w :: .mark m :: rest =>
      if m = "|" then (patterns rest).map fun (ws, rest) => (w :: ws, rest)
      else if m = ")" then some ([w], rest)
      else none
  | _ => none

/-- What is to be read. -/
inductive Want where
  /-- Commands, up to a word or mark that ends them. -/
  | commands
  /-- Commands joined by `&&` and `||`. -/
  | chain
  /-- Commands joined by `|`. -/
  | pipeline
  | command
  /-- The rest of a conditional, behind a condition word. -/
  | conditional
  /-- The cases up to the end of a choice, on a word. -/
  | cases (w : Word)

/-- Drops the marks that end a command. -/
def skipSeparators (ts : List Token) : List Token :=
  ts.dropWhile fun t => t.isMark ";" || t.isMark "\n" || t.isMark "&"

/-- The end of a compound command. -/
def close (c : Cmd) (ts : List Token) : Option (Cmd × List Token) := do
  let (rs, rest) ← redirects (ts.length + 1) ts
  return (if rs.isEmpty then c else .group c rs, rest)

mutual

/-- Reads what is wanted. -/
def read : Nat → Want → List Token → Option (Cmd × List Token)
  | 0, _, _ => none
  | fuel + 1, .commands, ts =>
      match skipSeparators ts with
      | [] => some (.seq [], [])
      | t :: rest =>
          if isTerminator t then some (.seq [], t :: rest)
          else do
            let (c, rest) ← read fuel .chain (t :: rest)
            match rest with
            | .mark m :: behind =>
                if m = ";" ∨ m = "\n" ∨ m = "&" then
                  let c := if m = "&" then .background c else c
                  match ← read fuel .commands behind with
                  | (.seq cs, rest) => return (.seq (c :: cs), rest)
                  | (d, rest) => return (.seq [c, d], rest)
                else return (.seq [c], rest)
            | _ => return (.seq [c], rest)
  | fuel + 1, .chain, ts => do
      let (c, rest) ← read fuel .pipeline ts
      chainOn fuel c rest
  | fuel + 1, .pipeline, ts =>
      match ts with
      | t :: rest =>
          if t.reserved? = some "!" then do
            let (c, rest) ← read fuel .pipeline rest
            return (.negate c, rest)
          else do
            let (c, rest) ← read fuel .command ts
            match rest with
            | .mark "|" :: rest =>
                let (d, rest) ← read fuel .pipeline (skipLines rest)
                return (.pipe c d, rest)
            | _ => return (c, rest)
      | [] => none
  | fuel + 1, .command, ts => command fuel ts
  | fuel + 1, .conditional, ts => do
      let (condition, rest) ← read fuel .commands ts
      let (yes, rest) ← read fuel .commands (← expectWord "then" rest)
      match rest with
      | t :: rest =>
          if t.reserved? = some "elif" then
            let (no, rest) ← read fuel .conditional rest
            return (.branch condition yes no, rest)
          else if t.reserved? = some "else" then
            let (no, rest) ← read fuel .commands rest
            return (.branch condition yes no, ← expectWord "fi" rest)
          else if t.reserved? = some "fi" then return (.branch condition yes (.seq []), rest)
          else none
      | [] => none
  | fuel + 1, .cases w, ts =>
      match skipLines ts with
      | t :: rest =>
          if t.reserved? = some "esac" then some (.choose w [], rest)
          else do
            let ts := if t.isMark "(" then rest else t :: rest
            let (ps, rest) ← patterns ts
            let (body, rest) ← read fuel .commands rest
            let rest := match rest with
              | .mark ";;" :: rest => rest
              | rest => rest
            match ← read fuel (.cases w) rest with
            | (.choose w cases, rest) => return (.choose w ((ps, body) :: cases), rest)
            | _ => none
      | [] => none

/-- What is joined to a command. -/
def chainOn (fuel : Nat) (c : Cmd) (ts : List Token) : Option (Cmd × List Token) :=
  match fuel with
  | 0 => none
  | fuel + 1 =>
      match ts with
      | .mark "&&" :: rest => do
          let (d, rest) ← read fuel .pipeline (skipLines rest)
          chainOn fuel (.both c d) rest
      | .mark "||" :: rest => do
          let (d, rest) ← read fuel .pipeline (skipLines rest)
          chainOn fuel (.either c d) rest
      | _ => some (c, ts)

/-- One command. -/
def command (fuel : Nat) (ts : List Token) : Option (Cmd × List Token) :=
  match fuel, ts with
  | 0, _ => none
  | _, [] => none
  | _ + 1, .compute e :: rest => do
      let (rs, rest) ← redirects (rest.length + 1) rest
      return (.group (.compute e) rs, rest)
  | fuel + 1, .mark "(" :: rest => do
      let (body, rest) ← read fuel .commands rest
      match rest with
      | .mark ")" :: rest =>
          let (rs, rest) ← redirects (rest.length + 1) rest
          return (.apart body rs, rest)
      | _ => none
  | fuel + 1, t :: rest =>
      match t.reserved?, rest with
      | some "if", _ => do
          let (c, rest) ← read fuel .conditional rest
          close c rest
      | some "while", _ => loopOn fuel false rest
      | some "until", _ => loopOn fuel true rest
      | some "for", .word name :: rest => do
          let name ← bare? name
          let (words, rest) := match rest with
            | t :: more => if t.reserved? = some "in" then plainWords more else ([], rest)
            | [] => ([], rest)
          let (body, rest) ← read fuel .commands (← expectWord "do" (skipSeparators rest))
          close (.each name words body) (← expectWord "done" rest)
      | some "case", .word w :: rest => do
          let (c, rest) ← read fuel (.cases w) (← expectWord "in" (skipLines rest))
          close c rest
      | some "\x7b", _ => do
          let (body, rest) ← read fuel .commands rest
          close body (← expectWord "\x7d" rest)
      | some name, .mark "(" :: .mark ")" :: rest => do
          let (body, rest) ← command fuel (skipLines rest)
          return (.define name body, rest)
      | _, _ => do
          let (s, rest) ← simple (rest.length + 2) {} (t :: rest)
          if s.assigns.isEmpty && s.words.isEmpty && s.redirects.isEmpty then none
          else return (.simple s.assigns s.words s.redirects, rest)

/-- A loop behind its word. -/
def loopOn (fuel : Nat) (inverted : Bool) (ts : List Token) : Option (Cmd × List Token) := do
  match fuel with
  | 0 => none
  | fuel + 1 =>
      let (condition, rest) ← read fuel .commands ts
      let (body, rest) ← read fuel .commands (← expectWord "do" rest)
      close (.loop inverted condition body) (← expectWord "done" rest)

end

/-- Reads a script. -/
def script? (cs : List Char) : Option Cmd := do
  let ts ← tokens (cs.length + 1) cs
  match ← read (4 * ts.length + 8) .commands ts with
  | (c, []) => some c
  | _ => none

end Conformance.Shell
