/-
Conformance — options as they are written.

`Spells` lists the ways in which an option with a value is written, and an
`Occurrence` is an option of a level written in one of them.  A level reads back
any line of occurrences, each option once unless it is a list (`read_tokens`):
what it finds is the occurrences, in order.  The token behind `--arg` may be
anything at all, another option, an escape or a subcommand; it is a value all the
same.

So a command line of occurrences is parsed, and means what they say
(`parse_of_occurrences`); if it is a run, these are the options that are found on
it, and no others (`found_of_occurrences`).
-/
import Conformance.Proofs.Settings.Options
import Mathlib.Data.List.TakeWhile

namespace Conformance.CommandLine

/-! ## Options as they are written -/

/-- `Spells o v ts`: option `o`, with value `v`, is written as the tokens `ts`. -/
inductive Spells (o : OptionSpec) : String → List String → Prop
  | named : o.kind = .flag → Spells o "" ["--" ++ o.long]
  | letter {c : Char} : o.kind = .flag → o.short = some c → c ≠ '-' →
      Spells o "" [String.ofList ['-', c]]
  | attached {v : String} : o.takesValue = true → o.check v = .ok () →
      Spells o v ["--" ++ o.long ++ "=" ++ v]
  | apart {v : String} : o.takesValue = true → o.check v = .ok () →
      o.takesAnyToken = true ∨ Token.of v = .plain → Spells o v ["--" ++ o.long, v]

/-- An option of a level on a command line. -/
structure Occurrence (level : Level) where
  option : OptionSpec
  value : String
  tokens : List String
  known : option ∈ level.options
  spells : Spells option value tokens

/-- The names of the options tell them apart, and cannot be mistaken for subcommands. -/
structure Level.Clear (level : Level) : Prop where
  named : ∀ o ∈ level.options, level.options.find? (·.long == o.long) = some o
  spelled : ∀ o ∈ level.options, o.long ≠ "" ∧ '=' ∉ o.long.toList
  lettered : ∀ o ∈ level.options, o.short.isSome →
    level.options.find? (·.short == o.short) = some o
  apart : ∀ s ∈ level.subcommands, s.toList.head? ≠ some '-'

theorem clear_topLevel : Level.Clear topLevel := by
  constructor <;> decide

theorem clear_runLevel : Level.Clear runLevel := by
  constructor <;> decide

theorem clear_quickLevel : Level.Clear quickLevel := by
  constructor <;> decide

variable {level : Level}

/-- The tokens of a line. -/
def tokensOf (xs : List (Occurrence level)) : List String := xs.flatMap (·.tokens)

/-- What is to be found on a line. -/
def foundOf (xs : List (Occurrence level)) : Found := xs.map fun x => (x.option.long, x.value)

/-- The values that a line gives to the option of a name, in order. -/
def givenTo (name : String) (xs : List (Occurrence level)) : List String :=
  (xs.filter fun x => x.option.long == name).map (·.value)

/-- Only lists are given more than once, and no option beside one that excludes it. -/
structure Consistent (xs : List (Occurrence level)) : Prop where
  once : xs.Pairwise fun x y => x.option.long = y.option.long → y.option.isList = true
  compatible : excluded level (foundOf xs) = false

/-! ## Tokens -/

theorem token_of_letter {c : Char} (hc : c ≠ '-') :
    Token.of (String.ofList ['-', c]) = .short [c] := by
  simp only [Token.of, String.toList_ofList]
  split <;> simp_all

theorem token_of_hyphens {cs : List Char} (hcs : cs ≠ []) {s : String}
    (hs : s.toList = '-' :: '-' :: cs) : Token.of s = splitLong cs := by
  obtain ⟨c, cs, rfl⟩ := List.exists_cons_of_ne_nil hcs
  simp only [Token.of, hs]

theorem takeWhile_of_not_mem {cs : List Char} (h : '=' ∉ cs) (rest : List Char) :
    (cs ++ '=' :: rest).takeWhile (· ≠ '=') = cs ∧
      (cs ++ '=' :: rest).dropWhile (· ≠ '=') = '=' :: rest := by
  have hall : ∀ c ∈ cs, decide (c ≠ '=') = true := fun c hc => decide_eq_true fun he => h (he ▸ hc)
  rw [List.takeWhile_append_of_pos hall, List.dropWhile_append_of_pos hall]
  simp

theorem token_of_long {name : String} (hname : name ≠ "") (heq : '=' ∉ name.toList) :
    Token.of ("--" ++ name) = .long name none := by
  have hall : ∀ c ∈ name.toList, decide (c ≠ '=') = true := fun c hc =>
    decide_eq_true fun he => heq (he ▸ hc)
  have hcs : name.toList ≠ [] := by simpa using hname
  rw [token_of_hyphens hcs (by simp [String.toList_append])]
  simp only [splitLong, List.takeWhile_eq_self_iff.mpr hall, List.dropWhile_eq_nil_iff.mpr hall,
    String.ofList_toList]

theorem token_of_attached {name : String} (heq : '=' ∉ name.toList) (v : String) :
    Token.of ("--" ++ name ++ "=" ++ v) = .long name (some v) := by
  obtain ⟨htake, hdrop⟩ := takeWhile_of_not_mem heq v.toList
  have hcs : name.toList ++ '=' :: v.toList ≠ [] := by simp
  rw [token_of_hyphens hcs (by simp [String.toList_append])]
  simp only [splitLong, htake, hdrop, String.ofList_toList]

/-- What starts with a hyphen is no subcommand. -/
theorem Level.Clear.not_subcommand (hl : level.Clear) {t : String}
    (ht : t.toList.head? = some '-') : level.subcommands.contains t = false := by
  rw [List.contains_eq_mem, decide_eq_false_iff_not]
  exact fun hin => hl.apart t hin ht

/-! ## Reading back -/

/-- Behind an option: what was found, once that option is settled. -/
structure Reading.Settles (r : Reading) (found : Found) : Prop where
  escaped : r.escaped = false
  awaited : r.awaited = none
  resolve : r.resolve = .ok { found }

theorem settles_start : Reading.Settles {} [] := ⟨rfl, rfl, rfl⟩

theorem settles_found (found : Found) : Reading.Settles { found } found := ⟨rfl, rfl, rfl⟩

section Reading

variable {o : OptionSpec} {v : String} {ts rest : List String} {r r' : Reading} {found : Found}

theorem record_of_new (hcheck : o.check v = .ok ())
    (hnew : o.isList = true ∨ found.lookup o.long = none) (pending : Pending) :
    Reading.record { found, pending } o v = .ok { found := found ++ [(o.long, v)] } := by
  have hfirst : (!o.isList && (found.lookup o.long).isSome) = false := by
    rcases hnew with hlist | hnone
    · rw [hlist]
      rfl
    · rw [hnone, Bool.and_comm]
      rfl
  simp only [Reading.record, hfirst, hcheck]
  rfl

theorem flag_of_new (hkind : o.kind = .flag) (hr : r.Settles found)
    (hnew : o.isList = true ∨ found.lookup o.long = none) :
    r.flag o = .ok { found := found ++ [(o.long, "")] } := by
  have hcheck : o.check "" = .ok () := by rw [OptionSpec.check, hkind]
  simp only [Reading.flag, hr.resolve, hkind]
  exact record_of_new hcheck hnew .nothing

/-- The first token of an option is read as that option. -/
theorem readLevel_of_long (hl : level.Clear) (hr : r.Settles found) {t : String} {name : String}
    {value : Option String} (hhyphen : t.toList.head? = some '-')
    (ht : Token.of t = .long name value) (h : r.long level name value = .ok r') :
    readLevel level (t :: rest) r = readLevel level rest r' := by
  rw [readLevel]
  simp only [hr.escaped, hr.awaited, hl.not_subcommand hhyphen, ht, h]
  rfl

/-- An option is found behind the others. -/
theorem read_of_spells (hl : level.Clear) (ho : o ∈ level.options) (hs : Spells o v ts)
    (hr : r.Settles found) (hnew : o.isList = true ∨ found.lookup o.long = none) :
    ∃ r', r'.Settles (found ++ [(o.long, v)]) ∧
      ∀ rest, readLevel level (ts ++ rest) r = readLevel level rest r' := by
  have hfind := hl.named o ho
  obtain ⟨hname, heq⟩ := hl.spelled o ho
  cases hs with
  | named hkind =>
      have htakes : o.takesValue = false := by rw [OptionSpec.takesValue, hkind]
      refine ⟨_, settles_found _, fun rest => ?_⟩
      refine readLevel_of_long hl hr (by simp [String.toList_append]) (token_of_long hname heq) ?_
      simp only [Reading.long, hfind, htakes]
      exact flag_of_new hkind hr hnew
  | @letter c hkind hshort hc =>
      have hfind' := hl.lettered o ho (by rw [hshort]; rfl)
      rw [hshort] at hfind'
      have hletter : Reading.shorts level [c] r = .ok { found := found ++ [(o.long, "")] } := by
        simp only [Reading.shorts, hfind', flag_of_new hkind hr hnew]
        rfl
      refine ⟨_, settles_found _, fun rest => ?_⟩
      rw [List.singleton_append, readLevel]
      simp only [hr.escaped, hr.awaited, hl.not_subcommand (t := String.ofList ['-', c])
        (by simp), token_of_letter hc, hletter]
      rfl
  | attached htakes hcheck =>
      refine ⟨_, settles_found _, fun rest => ?_⟩
      refine readLevel_of_long hl hr (by simp [String.toList_append]) (token_of_attached heq v) ?_
      simp only [Reading.long, hfind, htakes, hr.resolve]
      exact record_of_new hcheck hnew .nothing
  | apart htakes hcheck hvalue =>
      refine ⟨{ found, pending := .holding o v }, ⟨rfl, rfl, ?_⟩, fun rest => ?_⟩
      · exact record_of_new hcheck hnew _
      · have hlong : r.long level o.long none = .ok { found, pending := .awaiting o } := by
          simp only [Reading.long, hfind, htakes, hr.resolve]
          rfl
        rw [List.cons_append, readLevel_of_long hl hr (by simp [String.toList_append])
          (token_of_long hname heq) hlong, List.singleton_append, readLevel]
        -- the value is due, so the token is not looked at, or is no option
        rcases hvalue with hany | hplain
        · simp [Reading.awaited, hany]
        · simp [Reading.awaited, hplain]

theorem lookup_append_single (found : Found) (name : String) (a : String × String) :
    (found ++ [a]).lookup name = none ↔ found.lookup name = none ∧ name ≠ a.1 := by
  rw [List.lookup_append, Option.or_eq_none_iff]
  simp

/-- A line of occurrences is read back. -/
theorem read_tokens (hl : level.Clear) (xs : List (Occurrence level)) :
    ∀ {r : Reading} {found : Found}, r.Settles found →
      (∀ x ∈ xs, x.option.isList = true ∨ found.lookup x.option.long = none) →
      (xs.Pairwise fun x y => x.option.long = y.option.long → y.option.isList = true) →
      ∃ r', r'.Settles (found ++ foundOf xs) ∧
        ∀ rest, readLevel level (tokensOf xs ++ rest) r = readLevel level rest r' := by
  induction xs with
  | nil =>
      intro r found hr _ _
      exact ⟨r, by simpa [foundOf] using hr, fun _ => rfl⟩
  | cons x xs ih =>
      intro r found hr hnew honce
      obtain ⟨hx, hrest⟩ := List.pairwise_cons.mp honce
      obtain ⟨r₁, hr₁, hread₁⟩ := read_of_spells hl x.known x.spells hr (hnew x List.mem_cons_self)
      have hnew₁ : ∀ y ∈ xs, y.option.isList = true ∨
          (found ++ [(x.option.long, x.value)]).lookup y.option.long = none := by
        intro y hy
        rcases hnew y (List.mem_cons_of_mem x hy) with hlist | hnone
        · exact .inl hlist
        · by_cases hsame : x.option.long = y.option.long
          · exact .inl (hx y hy hsame)
          · exact .inr ((lookup_append_single _ _ _).mpr ⟨hnone, Ne.symm hsame⟩)
      obtain ⟨r', hr', hread'⟩ := ih hr₁ hnew₁ hrest
      refine ⟨r', by simpa [foundOf] using hr', fun rest => ?_⟩
      have htokens : tokensOf (x :: xs) ++ rest = x.tokens ++ (tokensOf xs ++ rest) := by
        simp [tokensOf]
      rw [htokens, hread₁, hread']

/-- A level closes on what a consistent line holds. -/
theorem close_of_settles {xs : List (Occurrence level)} (hr : r.Settles (foundOf xs))
    (hxs : Consistent xs) : close level r = .ok (foundOf xs) := by
  simp only [close, hr.resolve, hxs.compatible, bind, Except.bind]
  rfl

end Reading

section Lines

variable {front : List (Occurrence topLevel)} {behind : List (Occurrence level)}

/-- The two levels of a command line of occurrences, a subcommand between them. -/
theorem read_of_occurrences {name : String} (hname : topLevel.subcommands.contains name = true)
    (hl : level.Clear) (hfront : Consistent front) (hbehind : Consistent behind) :
    ∃ top sub,
      readLevel topLevel (tokensOf front ++ name :: tokensOf behind) {}
        = .ok { reading := top, sub := some (name, tokensOf behind) } ∧
      readLevel level (tokensOf behind) {} = .ok { reading := sub } ∧
      close level sub = .ok (foundOf behind) ∧ close topLevel top = .ok (foundOf front) := by
  have hstart : ∀ {level : Level} (xs : List (Occurrence level)), ∀ x ∈ xs,
      x.option.isList = true ∨ ([] : Found).lookup x.option.long = none :=
    fun _ _ _ => .inr rfl
  obtain ⟨top, htop, hreadTop⟩ :=
    read_tokens clear_topLevel front settles_start (hstart front) hfront.once
  obtain ⟨sub, hsub, hreadSub⟩ := read_tokens hl behind settles_start (hstart behind) hbehind.once
  refine ⟨top, sub, ?_, ?_, close_of_settles hsub hbehind, close_of_settles htop hfront⟩
  · rw [hreadTop, readLevel]
    simp only [htop.escaped, htop.awaited, hname]
    rfl
  · have hend := hreadSub []
    rw [List.append_nil] at hend
    rw [hend]
    rfl

/-- A command line of occurrences, a subcommand between them, is parsed into what they say. -/
theorem parse_of_occurrences {name : String} {make : Found → Command}
    (hsub : subcommand name = some (level, make))
    (hname : topLevel.subcommands.contains name = true)
    (hl : level.Clear) (hfront : Consistent front) (hbehind : Consistent behind) :
    parse (tokensOf front ++ name :: tokensOf behind)
      = .ok (join (foundOf front) (foundOf behind) (make (foundOf behind))) := by
  obtain ⟨top, sub, htop, hread, hbehind, hfront⟩ :=
    read_of_occurrences hname hl hfront hbehind
  simp only [parse, htop, hsub, hread, hbehind, hfront, bind, Except.bind, pure, Except.pure]

/-- What is found on a run of occurrences is what they say, whoever finds it. -/
theorem found_of_occurrences {options : List (Occurrence runLevel)} (hfront : Consistent front)
    (hoptions : Consistent options) {given found : Found}
    (h : RunsWith (tokensOf front ++ "run" :: tokensOf options) given found) :
    given = foundOf front ∧ found = foundOf options := by
  obtain ⟨top, sub, htop, hread, hclose, hcloseTop⟩ :=
    read_of_occurrences (show topLevel.subcommands.contains "run" = true by decide) clear_runLevel
      hfront hoptions
  obtain ⟨top', rest, sub', htop', hread', hclose', hcloseTop'⟩ := h
  cases htop.symm.trans htop'
  cases hread.symm.trans hread'
  cases hclose.symm.trans hclose'
  cases hcloseTop.symm.trans hcloseTop'
  exact ⟨rfl, rfl⟩

end Lines

/-! ## What is found -/

theorem lookup_eq_head (found : Found) (name : String) :
    found.lookup name = (found.values name).head? := by
  induction found with
  | nil => rfl
  | cons a found ih =>
      obtain ⟨k, v⟩ := a
      by_cases hname : name = k
      · subst hname
        simp [Found.values]
      · have hne : (k == name) = false := beq_eq_false_iff_ne.mpr (Ne.symm hname)
        simp only [List.lookup_cons, beq_eq_false_iff_ne.mpr hname, ih, Found.values,
          List.filter_cons, hne]
        rfl

theorem values_foundOf (name : String) (xs : List (Occurrence level)) :
    (foundOf xs).values name = givenTo name xs := by
  simp only [Found.values, foundOf, givenTo, List.filter_map, List.map_map]
  rfl

theorem lookup_foundOf (name : String) (xs : List (Occurrence level)) :
    (foundOf xs).lookup name = (givenTo name xs).head? := by
  rw [lookup_eq_head, values_foundOf]

end Conformance.CommandLine
