/-
Conformance — a document is read back from its text.

The text of a document, read by the machine, gives the document again, with the
members of every object sorted (`parse_print`).  Two things can stand in the
way, and both are hypotheses: a double, of which the text keeps only what the
reader's arithmetic gives back, and containers that nest deeper than the reader
goes.

`Reads` and `Yields` say what a piece of text does to the machine, whatever is
read after it; a number ends only with what follows, so the text of a value
`Yields` where that is a comma, a closing bracket or the end.  There is one lemma
per character class and one per constructor.

A document whose members are sorted already is its own canonical form
(`canonical_of_sorted`), so it is read back as it was written.
-/
import Conformance.Json.Parse
import Mathlib.Data.Nat.Digits.Defs
import Mathlib.Data.String.Basic
import Mathlib.Tactic.IntervalCases

namespace Conformance.Json

/-! ## Documents that have a faithful text -/

/-- An integer of a 64-bit word, signed or not. -/
def Number.isWord : Number → Bool
  | .int i => decide (-(Word.signedBound : Int) ≤ i ∧ i < Word.bound)
  | .float _ => false

mutual

/-- How deep the containers of a document nest. -/
def depth : Json → Nat
  | .arr xs => depthItems xs + 1
  | .obj ms => depthMembers ms + 1
  | .null | .bool _ | .num _ | .str _ => 0

def depthItems : List Json → Nat
  | [] => 0
  | x :: xs => max (depth x) (depthItems xs)

def depthMembers : List (String × Json) → Nat
  | [] => 0
  | (_, v) :: rest => max (depth v) (depthMembers rest)

end

mutual

/-- Every number is an integer of a 64-bit word. -/
def integral : Json → Bool
  | .num n => n.isWord
  | .arr xs => integralItems xs
  | .obj ms => integralMembers ms
  | .null | .bool _ | .str _ => true

def integralItems : List Json → Bool
  | [] => true
  | x :: xs => integral x && integralItems xs

def integralMembers : List (String × Json) → Bool
  | [] => true
  | (_, v) :: rest => integral v && integralMembers rest

end

mutual

/-- The members of every object are sorted by key, each key once. -/
def sorted : Json → Bool
  | .arr xs => sortedItems xs
  | .obj ms => decide ((ms.map (·.1)).Pairwise (· < ·)) && sortedMembers ms
  | .null | .bool _ | .num _ | .str _ => true

def sortedItems : List Json → Bool
  | [] => true
  | x :: xs => sorted x && sortedItems xs

def sortedMembers : List (String × Json) → Bool
  | [] => true
  | (_, v) :: rest => sorted v && sortedMembers rest

end

/-! ## Sorted documents -/

/-- A key above all others is added at the end. -/
theorem insert_of_above {key : String} {v : Json} {ms : List (String × Json)}
    (h : ∀ k ∈ ms.map (·.1), k < key) : insert key v ms = ms ++ [(key, v)] := by
  induction ms with
  | nil => rfl
  | cons m rest ih =>
      obtain ⟨hm, hrest⟩ := List.forall_mem_cons.mp h
      have hne : (key == m.1) = false := beq_false_of_ne hm.ne'
      rw [insert, if_neg hm.not_gt, if_neg (by simp [hne]), ih hrest, List.cons_append]

/-- A key below the first is added in front. -/
theorem insert_of_below {key k : String} {v w : Json} {ms : List (String × Json)} (h : key < k) :
    insert key v ((k, w) :: ms) = (key, v) :: (k, w) :: ms := by
  rw [insert, if_pos h]

theorem foldl_insert_of_sorted {ms : List (String × Json)} : ∀ done : List (String × Json),
    ((done ++ ms).map (·.1)).Pairwise (· < ·) →
    ms.foldl (fun acc m => insert m.1 m.2 acc) done = done ++ ms := by
  induction ms with
  | nil => exact fun done _ => (List.append_nil done).symm
  | cons m rest ih =>
      intro done h
      have habove : ∀ k ∈ done.map (·.1), k < m.1 := by
        rw [List.map_append, List.pairwise_append] at h
        exact fun k hk => h.2.2 k hk m.1 List.mem_cons_self
      have hnext : ((done ++ [m] ++ rest).map (·.1)).Pairwise (· < ·) := by
        rwa [List.append_assoc]
      rw [List.foldl_cons, insert_of_above habove, ih _ hnext, List.append_assoc]
      rfl

theorem sortMembers_of_sorted {ms : List (String × Json)}
    (h : (ms.map (·.1)).Pairwise (· < ·)) : sortMembers ms = ms :=
  foldl_insert_of_sorted [] h

/-- Members sorted so far, and one more whose key is above theirs. -/
theorem sortMembers_concat {ms done : List (String × Json)} {key : String} {v : Json}
    (hms : sortMembers ms = done) (h : ∀ k ∈ done.map (·.1), k < key) :
    sortMembers (ms ++ [(key, v)]) = done ++ [(key, v)] := by
  subst hms
  rw [← insert_of_above h, sortMembers, List.foldl_append]
  rfl

mutual

theorem canonical_of_sorted : ∀ {v : Json}, v.sorted = true → v.canonical = v
  | .null, _ | .bool _, _ | .num _, _ | .str _, _ => by rw [canonical]
  | .arr xs, h => by
      have hxs : sortedItems xs = true := by simpa [sorted] using h
      rw [canonical, canonicalItems_of_sorted hxs]
  | .obj ms, h => by
      obtain ⟨hkeys, hms⟩ : (ms.map (·.1)).Pairwise (· < ·) ∧ sortedMembers ms = true := by
        simpa [sorted] using h
      rw [canonical, canonicalMembers_of_sorted hms, sortMembers_of_sorted hkeys]

theorem canonicalItems_of_sorted : ∀ {xs : List Json}, sortedItems xs = true →
    canonicalItems xs = xs
  | [], _ => rfl
  | x :: xs, h => by
      obtain ⟨hx, hxs⟩ : x.sorted = true ∧ sortedItems xs = true := by
        simpa [sortedItems] using h
      rw [canonicalItems, canonical_of_sorted hx, canonicalItems_of_sorted hxs]

theorem canonicalMembers_of_sorted : ∀ {ms : List (String × Json)}, sortedMembers ms = true →
    canonicalMembers ms = ms
  | [], _ => rfl
  | (k, v) :: rest, h => by
      obtain ⟨hv, hrest⟩ : v.sorted = true ∧ sortedMembers rest = true := by
        simpa [sortedMembers] using h
      rw [canonicalMembers, canonical_of_sorted hv, canonicalMembers_of_sorted hrest]

end

/-! ## What a piece of text does to the machine -/

section Machine

variable {limit : Nat}

/-- The machine reads `cs` and is then in state `s'`, whatever comes next. -/
def Reads (limit : Nat) (s : State) (cs : List Char) (s' : State) : Prop :=
  ∀ pos, ∃ pos', ∀ rest, run limit s pos (cs ++ rest) = run limit s' pos' rest

/-- What can follow a value that is written without blanks. -/
def ends : List Char → Bool
  | [] => true
  | c :: _ => c == ',' || c == ']' || c == '\x7d'

/-- The machine reads `cs` and then goes on as from state `s'`, if a value may end there. -/
def Yields (limit : Nat) (s : State) (cs : List Char) (s' : State) : Prop :=
  ∀ pos, ∃ pos', ∀ rest, ends rest = true →
    run limit s pos (cs ++ rest) = run limit s' pos' rest

variable {s s' t : State} {cs ds : List Char} {c : Char}

theorem Reads.nil : Reads limit s [] s := fun pos => ⟨pos, fun _ => rfl⟩

theorem Reads.append (h : Reads limit s cs t) (h' : Reads limit t ds s') :
    Reads limit s (cs ++ ds) s' := by
  intro pos
  obtain ⟨mid, hmid⟩ := h pos
  obtain ⟨pos', hpos⟩ := h' mid
  refine ⟨pos', fun rest => ?_⟩
  rw [List.append_assoc, hmid, hpos]

theorem reads_char (h : ∀ pos, s.step limit pos c = .ok s') : Reads limit s [c] s' := by
  intro pos
  refine ⟨pos + c.utf8Size, fun rest => ?_⟩
  rw [List.singleton_append, run, h]
  rfl

theorem Reads.cons (h : ∀ pos, s.step limit pos c = .ok t) (h' : Reads limit t cs s') :
    Reads limit s (c :: cs) s' :=
  (reads_char h).append h'

theorem Reads.yields (h : Reads limit s cs s') : Yields limit s cs s' := by
  intro pos
  obtain ⟨pos', hpos⟩ := h pos
  exact ⟨pos', fun rest _ => hpos rest⟩

theorem Reads.append_yields (h : Reads limit s cs t) (h' : Yields limit t ds s') :
    Yields limit s (cs ++ ds) s' := by
  intro pos
  obtain ⟨mid, hmid⟩ := h pos
  obtain ⟨pos', hpos⟩ := h' mid
  refine ⟨pos', fun rest hrest => ?_⟩
  rw [List.append_assoc, hmid, hpos rest hrest]

theorem Yields.cons (h : ∀ pos, s.step limit pos c = .ok t) (h' : Yields limit t cs s') :
    Yields limit s (c :: cs) s' :=
  (reads_char h).append_yields h'

theorem Reads.ended (h : Reads limit s cs t) (h' : Yields limit t [] s') : Yields limit s cs s' := by
  simpa using h.append_yields h'

/-- Behind a value comes what may end it. -/
theorem Yields.append_reads (h : Yields limit s cs t) (hc : ends [c] = true)
    (h' : Reads limit t (c :: ds) s') : Reads limit s (cs ++ c :: ds) s' := by
  intro pos
  obtain ⟨mid, hmid⟩ := h pos
  obtain ⟨pos', hpos⟩ := h' mid
  refine ⟨pos', fun rest => ?_⟩
  have hcomma : ends (c :: ds ++ rest) = true := hc
  rw [List.append_assoc, hmid _ hcomma, hpos]

theorem Yields.append (h : Yields limit s cs t) (hc : ends [c] = true)
    (h' : Yields limit t (c :: ds) s') : Yields limit s (cs ++ c :: ds) s' := by
  intro pos
  obtain ⟨mid, hmid⟩ := h pos
  obtain ⟨pos', hpos⟩ := h' mid
  refine ⟨pos', fun rest hrest => ?_⟩
  have hcomma : ends (c :: ds ++ rest) = true := hc
  rw [List.append_assoc, hmid _ hcomma, hpos rest hrest]

/-! ## Values and what holds them -/

/-- The container that takes a value does not look at what the machine did before. -/
theorem push_mode (stack : List Frame) (m m' : Mode) (v : Json) :
    State.push ⟨stack, m⟩ v = State.push ⟨stack, m'⟩ v := by
  rcases stack with _ | ⟨_ | _, rest⟩ <;> rfl

/-- The machine behind a complete value, which the innermost of the open containers has taken. -/
def behind (stack : List Frame) (v : Json) : State := State.push ⟨stack, .after⟩ v

theorem step_behind (pos : Nat) (stack : List Frame) (v : Json) (c : Char) :
    (behind stack v).step limit pos c = (behind stack v).next pos c := by
  rcases stack with _ | ⟨_ | _, rest⟩ <;> rfl

/-- What a value begins with is neither a blank nor a closing bracket. -/
theorem step_value {stack : List Frame} {due : Due} (hspace : isSpace c = false) (hc : c ≠ ']')
    (pos : Nat) : State.step limit pos ⟨stack, .value due⟩ c
      = State.begin limit pos ⟨stack, .value due⟩ c := by
  simp [State.step, hspace, hc]

/-- A word is read letter by letter. -/
theorem reads_word {stack : List Frame} {m : Mode} {w : List Char} {v : Json} (hw : w ≠ [])
    (hm : m = .word w v) : Reads limit ⟨stack, m⟩ w (behind stack v) := by
  subst hm
  induction w with
  | nil => exact absurd rfl hw
  | cons a rest ih =>
      cases rest with
      | nil => exact reads_char fun pos => by simp [State.step, behind, push_mode stack _ .after]
      | cons b rest => exact .cons (fun pos => by simp [State.step]) (ih (List.cons_ne_nil _ _))

/-! ## Numbers -/

theorem digit_digitChar {base d : Nat} (hd : d < base) (hbase : base ≤ 16) :
    Text.digit? base (Nat.digitChar d) = some d := by
  have hall : ∀ b : Fin 17, ∀ k : Fin 16, k.val < b.val →
      Text.digit? b (Nat.digitChar k) = some k.val := by decide
  exact hall ⟨base, by omega⟩ ⟨d, by omega⟩ hd

theorem push_of_lt {m d n : Nat} (h : 10 * m + d = n) (hn : n < Word.bound) :
    Number.push? m d = some n := by
  rw [Number.push?, Nat.mul_comm m 10, h]
  exact if_pos hn

/-- The machine amid a numeral without point and exponent. -/
def amid (stack : List Frame) (negative : Bool) (n : Nat) : State :=
  ⟨stack, .number { place := .whole, numeral := { negative, significand := n } }⟩

theorem step_amid {stack : List Frame} {negative : Bool} {m d n : Nat} (hd : d < 10)
    (h : 10 * m + d = n) (hn : n < Word.bound) (pos : Nat) :
    (amid stack negative m).step limit pos (Nat.digitChar d) = .ok (amid stack negative n) := by
  simp only [State.step, amid, Numbering.step, digit_digitChar hd (by decide), Number.Numeral.digit,
    push_of_lt h hn]
  rfl

/-- The digits of a positive number, from where its first digit is due.  The induction takes
the last digit off. -/
theorem reads_digits {s : State} {stack : List Frame} {negative : Bool} {n : Nat}
    (hfirst : ∀ d, 0 < d → d < 10 → ∀ pos,
      s.step limit pos (Nat.digitChar d) = .ok (amid stack negative d))
    (hpos : 0 < n) (hn : n < Word.bound) :
    Reads limit s (Nat.toDigits 10 n) (amid stack negative n) := by
  induction n using Nat.strong_induction_on with
  | _ n ih =>
      by_cases hone : n < 10
      · rw [Nat.toDigits_of_lt_base hone]
        exact reads_char (hfirst n hpos hone)
      · have hsplit : 10 * (n / 10) + n % 10 = n := Nat.div_add_mod n 10
        have hlast : n % 10 < 10 := Nat.mod_lt n (by decide)
        have hmore : 0 < n / 10 := by omega
        have hdigits := Nat.toDigits_append_toDigits (b := 10) (by decide) hmore hlast
        rw [hsplit, Nat.toDigits_of_lt_base hlast] at hdigits
        rw [← hdigits]
        exact (ih (n / 10) (by omega) hmore (by omega)).append
          (reads_char (step_amid hlast hsplit hn))

/-- Where a numeral may end it is a value, and what ends it is read behind that value. -/
theorem yields_number {stack : List Frame} {n : Numbering} {v : Number}
    (hplace : n.place = .zero ∨ n.place = .whole) (hv : n.numeral.integer? = some v) :
    Yields limit ⟨stack, .number n⟩ [] (behind stack (.num v)) := by
  have hfinish : ∀ pos, n.finish pos = .ok (.num v) := by
    intro pos
    rcases hplace with hp | hp <;> simp [Numbering.finish, hp, hv]
  intro pos
  refine ⟨pos, fun rest hrest => ?_⟩
  rw [List.nil_append]
  cases rest with
  | nil =>
      have hended : (behind stack (.num v)).finish pos = (behind stack (.num v)).ended pos := by
        rcases stack with _ | ⟨_ | _, more⟩ <;> rfl
      rw [run, run, hended]
      rcases hplace with hp | hp <;>
        simp only [State.finish, hp, hfinish, behind, push_mode stack _ .after] <;> rfl
  | cons c cs =>
      have hstop : n.step pos c = .ok none := by
        have hc : c = ',' ∨ c = ']' ∨ c = '\x7d' := by simpa [ends, or_assoc] using hrest
        rcases hplace with hp | hp <;> rcases hc with rfl | rfl | rfl <;>
          simp only [Numbering.step, hp] <;> rfl
      rw [run, run, step_behind]
      simp only [State.step, hstop, hfinish, behind, push_mode stack _ .after]
      rfl

/-- Digits behind a sign. -/
theorem yields_negative (stack : List Frame) (due : Due) {n : Nat} (hpos : 0 < n)
    (hn : n ≤ Word.signedBound) : Yields limit ⟨stack, .value due⟩ ('-' :: Nat.toDigits 10 n)
      (behind stack (.num (.int (-(n : Int))))) := by
  refine .cons (step_value (by decide) (by decide)) (Reads.ended (t := amid stack true n) ?_ ?_)
  · refine reads_digits (fun d h0 hd pos => ?_) hpos (Nat.lt_of_le_of_lt hn (by decide))
    obtain ⟨d, rfl⟩ : ∃ k, d = k + 1 := ⟨d - 1, by omega⟩
    simp only [State.step, Numbering.step, digit_digitChar hd (by decide), Number.Numeral.digit,
      push_of_lt (m := 0) (Nat.zero_add _) (Nat.lt_trans hd (by decide))]
    rfl
  · refine yields_number (.inr rfl) ?_
    simp [Number.Numeral.integer?, Nat.pos_iff_ne_zero.mp hpos, Nat.not_lt.mpr hn]

/-- Digits without a sign. -/
theorem yields_positive (stack : List Frame) (due : Due) {n : Nat} (hpos : 0 < n)
    (hn : n < Word.bound) : Yields limit ⟨stack, .value due⟩ (Nat.toDigits 10 n)
      (behind stack (.num (.int n))) := by
  refine Reads.ended (t := amid stack false n) ?_ (yields_number (.inr rfl) rfl)
  refine reads_digits (fun d h0 hd pos => ?_) hpos hn
  have hall : ∀ k : Fin 10, 0 < k.val →
      isSpace (Nat.digitChar k) = false ∧ Nat.digitChar k ≠ ']' := by decide
  obtain ⟨hspace, hbracket⟩ := hall ⟨d, hd⟩ h0
  rw [step_value hspace hbracket]
  interval_cases d <;> rfl

/-- The text of an integer, where a value is due. -/
theorem yields_int {stack : List Frame} {due : Due} {i : Int}
    (hi : (Number.int i).isWord = true) :
    Yields limit ⟨stack, .value due⟩ (Number.int i).text (behind stack (.num (.int i))) := by
  obtain ⟨hlow, hhigh⟩ : -9223372036854775808 ≤ i ∧ i < 18446744073709551616 := of_decide_eq_true hi
  rw [Number.text]
  split
  · rename_i hneg
    have hval : i = -(i.natAbs : Int) := by omega
    have hpos : 0 < i.natAbs := by omega
    have hbound : i.natAbs ≤ Word.signedBound := by
      simp only [Word.signedBound]
      omega
    have hread : Yields limit _ _ _ := yields_negative stack due hpos hbound
    rwa [← hval] at hread
  · rename_i hnonneg
    have hval : i = (i.natAbs : Int) := by omega
    by_cases hzero : i = 0
    · subst hzero
      exact .cons (step_value (by decide) (by decide)) (yields_number (.inl rfl) rfl)
    · have hpos : 0 < i.natAbs := by omega
      have hbound : i.natAbs < Word.bound := by
        simp only [Word.bound]
        omega
      have hread : Yields limit _ _ _ := yields_positive stack due hpos hbound
      rwa [← hval] at hread

/-! ## Strings -/

/-- A control character as two hexadecimal digits. -/
theorem hex_of_low {n : Nat} (h : n < 0x20) :
    (if n < 0x10 then ['0'] else []) ++ Text.hex n = [Nat.digitChar (n / 16), Nat.digitChar (n % 16)] := by
  have hall : ∀ k : Fin 32, (if k.val < 0x10 then ['0'] else []) ++ Text.hex k
      = [Nat.digitChar (k / 16), Nat.digitChar (k % 16)] := by decide
  exact hall ⟨n, h⟩

/-- The machine amid a string. -/
def within (stack : List Frame) (isKey : Bool) (done : List Char) : State :=
  ⟨stack, .string isKey done .plain⟩

/-- One of the first three digits of an escape. -/
theorem run_hexDigit {stack : List Frame} {isKey : Bool} {done : List Char}
    {start taken value d : Nat} (ht : taken < 3) (hd : d < 16) (pos : Nat) (cs : List Char) :
    run limit ⟨stack, .string isKey done (.hex start taken value true none)⟩ pos
        (Nat.digitChar d :: cs)
      = run limit ⟨stack, .string isKey done (.hex start (taken + 1) (value * 16 + d) true none)⟩
        (pos + 1) cs := by
  have hsize : ∀ k : Fin 16, (Nat.digitChar k).utf8Size = 1 := by decide
  have hone : (Nat.digitChar d).utf8Size = 1 := hsize ⟨d, hd⟩
  have hmore : taken + 1 < 4 := Nat.succ_lt_succ ht
  simp only [run, State.step, escapeStep, hone, digit_digitChar hd (by decide), if_pos hmore]
  rfl

/-- The last digit of an escape that is no surrogate. -/
theorem run_lastDigit {stack : List Frame} {isKey : Bool} {done : List Char}
    {start value d : Nat} (hd : d < 16) (hplain : value * 16 + d < 0xD800) (pos : Nat)
    (cs : List Char) :
    run limit ⟨stack, .string isKey done (.hex start 3 value true none)⟩ pos
        (Nat.digitChar d :: cs)
      = run limit (within stack isKey (Char.ofNat (value * 16 + d) :: done)) (pos + 1) cs := by
  have hsize : ∀ k : Fin 16, (Nat.digitChar k).utf8Size = 1 := by decide
  have hone : (Nat.digitChar d).utf8Size = 1 := hsize ⟨d, hd⟩
  have hunit : unitStep done (start + 4) (value * 16 + d) none
      = .ok (Char.ofNat (value * 16 + d) :: done, .plain) := by
    have hlow : ¬ 0xDC00 ≤ value * 16 + d := by omega
    simp [unitStep, hlow, Nat.not_le.mpr hplain]
  simp only [run, State.step, escapeStep, hone, digit_digitChar hd (by decide)]
  simp [hunit, within]
  rfl

/-- A control character without a short name is written as its code point. -/
theorem reads_escape {stack : List Frame} {isKey : Bool} {done : List Char} {c : Char}
    (hc : c.toNat < 0x20) : Reads limit (within stack isKey done)
      (['\\', 'u', '0', '0'] ++ (if c.toNat < 0x10 then ['0'] else []) ++ Text.hex c.toNat)
      (within stack isKey (c :: done)) := by
  have hvalue : c.toNat / 16 * 16 + c.toNat % 16 = c.toNat := Nat.div_add_mod' _ _
  rw [List.append_assoc, hex_of_low hc]
  intro pos
  refine ⟨pos + 6, fun rest => ?_⟩
  calc run limit (within stack isKey done) pos (_ ++ rest)
      = run limit ⟨stack, .string isKey done (.hex (pos + 2) 0 0 true none)⟩ (pos + 2)
          (Nat.digitChar 0 :: Nat.digitChar 0 :: Nat.digitChar (c.toNat / 16) ::
            Nat.digitChar (c.toNat % 16) :: rest) := rfl
    _ = run limit (within stack isKey (c :: done)) (pos + 6) rest := by
        rw [run_hexDigit (by decide) (by decide), run_hexDigit (by decide) (by decide),
          run_hexDigit (by decide) (by omega), run_lastDigit (by omega) (by omega)]
        simp only [Nat.zero_mul, Nat.zero_add, hvalue, Char.ofNat_toNat]

/-- One character of a string, however it is written. -/
theorem reads_stringChar {stack : List Frame} {isKey : Bool} {done : List Char} (c : Char) :
    Reads limit (within stack isKey done) (stringChar c) (within stack isKey (c :: done)) := by
  unfold stringChar
  split
  case h_8 hquote hslash _ _ _ _ _ =>
    split
    · exact reads_escape ‹_›
    · rename_i hhigh
      refine reads_char fun pos => ?_
      simp only [within, State.step, beq_iff_eq, if_neg (show ¬ c = '"' from hquote),
        if_neg (show ¬ c = '\\' from hslash), if_neg hhigh]
  all_goals exact .cons (fun _ => rfl) (reads_char fun _ => rfl)

theorem reads_chars (stack : List Frame) (isKey : Bool) (cs : List Char) : ∀ done : List Char,
    Reads limit (within stack isKey done) (cs.flatMap stringChar)
      (within stack isKey (cs.reverse ++ done)) := by
  induction cs with
  | nil => exact fun _ => .nil
  | cons c cs ih =>
      intro done
      rw [List.flatMap_cons, List.reverse_cons, List.append_assoc]
      exact (reads_stringChar c).append (ih (c :: done))

/-- A string with its quotes, from where its first quote opens it to where its last ends it. -/
theorem reads_string {t s' : State} (stack : List Frame) (isKey : Bool) (s : String)
    (hopen : ∀ pos, t.step limit pos '"' = .ok (within stack isKey []))
    (hend : (within stack isKey s.toList.reverse).endString isKey s.toList.reverse = s') :
    Reads limit t (stringText s) s' := by
  have hbody : Reads limit _ _ _ := reads_chars stack isKey s.toList []
  rw [List.append_nil] at hbody
  exact .cons hopen (hbody.append (reads_char fun _ => congrArg Except.ok hend))

theorem reads_key {done : List (String × Json)} {key : String} {rest : List Frame} {first : Bool}
    (s : String) : Reads limit ⟨.object done key :: rest, .key first⟩ (stringText s ++ [':'])
      ⟨.object done s :: rest, .value .plain⟩ := by
  refine (reads_string (.object done key :: rest) true s (fun _ => rfl) rfl).append
    (reads_char fun pos => ?_)
  simp [within, State.endString, State.step, isSpace]

theorem reads_text_string {stack : List Frame} {due : Due} (s : String) :
    Reads limit ⟨stack, .value due⟩ (stringText s) (behind stack (.str s)) := by
  refine reads_string stack false s
    (fun pos => step_value (by decide) (by decide) pos) ?_
  rcases stack with _ | ⟨_ | _, rest⟩ <;>
    simp [within, State.endString, behind, State.push]

/-! ## Documents -/

/-- A list opens where a value is due, if the nesting allows it. -/
theorem step_bracket {stack : List Frame} {due : Due} (h : stack.length < limit) (pos : Nat) :
    State.step limit pos ⟨stack, .value due⟩ '[' = .ok ⟨.list [] :: stack, .value .firstItem⟩ := by
  rw [step_value (by decide) (by decide)]
  exact if_pos h

/-- An object opens where a value is due, if the nesting allows it. -/
theorem step_brace {stack : List Frame} {due : Due} (h : stack.length < limit) (pos : Nat) :
    State.step limit pos ⟨stack, .value due⟩ '\x7b' = .ok ⟨.object [] "" :: stack, .key true⟩ := by
  rw [step_value (by decide) (by decide)]
  exact if_pos h

/-- A closing bracket ends a list, and what was open around it takes it. -/
theorem reads_closeList {stack : List Frame} {done : List Json} :
    Reads limit ⟨.list done :: stack, .after⟩ [']'] (behind stack (.arr done.reverse)) :=
  reads_char fun _ => rfl

theorem reads_closeObject {stack : List Frame} {done : List (String × Json)} {key : String} :
    Reads limit ⟨.object done key :: stack, .after⟩ ['\x7d'] (behind stack (.obj done)) :=
  reads_char fun _ => rfl

mutual

theorem yields_text : ∀ (v : Json) (stack : List Frame) (due : Due), v.integral = true →
    stack.length + v.depth ≤ limit →
    Yields limit ⟨stack, .value due⟩ v.text (behind stack v.canonical)
  | .null, _, _, _, _ | .bool true, _, _, _, _ | .bool false, _, _, _, _ => by
      rw [text, canonical]
      exact .cons (step_value (by decide) (by decide))
        (reads_word (List.cons_ne_nil _ _) rfl).yields
  | .num (.int i), _, _, hv, _ => by
      rw [text, canonical]
      exact yields_int (by simpa [integral] using hv)
  | .num (.float x), _, _, hv, _ => by simp [integral, Number.isWord] at hv
  | .str s, _, _, _, _ => by
      rw [text, canonical]
      exact (reads_text_string s).yields
  | .arr [], stack, _, _, hd => by
      have hroom : stack.length < limit := by
        rw [depth] at hd
        omega
      rw [text, canonical]
      exact (Reads.cons (step_bracket hroom) (reads_char fun _ => rfl)).yields
  | .arr (x :: xs), stack, _, hv, hd => by
      rw [depth] at hd
      rw [integral] at hv
      have hroom : stack.length < limit := by omega
      have hitems : Yields limit _ _ _ :=
        yields_items (x :: xs) (List.cons_ne_nil _ _) stack [] .firstItem hv (by omega)
      have hclosed := hitems.append_reads rfl reads_closeList
      rw [List.append_nil, List.reverse_reverse] at hclosed
      rw [text, canonical]
      exact (Reads.cons (step_bracket hroom) hclosed).yields
  | .obj [], stack, _, _, hd => by
      have hroom : stack.length < limit := by
        rw [depth] at hd
        omega
      rw [text, canonical]
      exact (Reads.cons (step_brace hroom) (reads_char fun _ => rfl)).yields
  | .obj (m :: ms), stack, _, hv, hd => by
      rw [depth] at hd
      rw [integral] at hv
      have hroom : stack.length < limit := by omega
      obtain ⟨key, hmembers⟩ : ∃ key, Yields limit _ _ _ :=
        yields_members (m :: ms) (List.cons_ne_nil _ _) stack [] "" true hv (by omega)
      have hclosed := hmembers.append_reads rfl reads_closeObject
      rw [text, canonical]
      exact (Reads.cons (step_brace hroom) hclosed).yields

theorem yields_items : ∀ xs : List Json, xs ≠ [] → ∀ (stack : List Frame) (done : List Json)
    (due : Due), integralItems xs = true → stack.length + 1 + depthItems xs ≤ limit →
    Yields limit ⟨.list done :: stack, .value due⟩ (itemsText xs)
      ⟨.list ((canonicalItems xs).reverse ++ done) :: stack, .after⟩
  | [], h, _, _, _, _, _ => absurd rfl h
  | [x], _, stack, done, due, hv, hd => by
      simp only [integralItems, Bool.and_true] at hv
      simp only [depthItems, Nat.max_zero] at hd
      rw [itemsText]
      exact yields_text x (.list done :: stack) due hv hd
  | x :: y :: rest, _, stack, done, due, hv, hd => by
      rw [integralItems, Bool.and_eq_true] at hv
      rw [depthItems] at hd
      have hx : Yields limit _ _ _ := yields_text x (.list done :: stack) due hv.1
        (by rw [List.length_cons]; omega)
      have hrest : Yields limit _ _ _ := yields_items (y :: rest) (List.cons_ne_nil _ _) stack
        (x.canonical :: done) .nextItem hv.2 (by omega)
      rw [itemsText.eq_3 x (y :: rest) (List.cons_ne_nil _ _), canonicalItems, List.reverse_cons,
        List.append_assoc]
      exact hx.append rfl (.cons (fun _ => rfl) hrest)

theorem yields_members : ∀ ms : List (String × Json), ms ≠ [] → ∀ (stack : List Frame)
    (done : List (String × Json)) (key : String) (first : Bool), integralMembers ms = true →
    stack.length + 1 + depthMembers ms ≤ limit →
    ∃ last, Yields limit ⟨.object done key :: stack, .key first⟩ (membersText ms)
      ⟨.object ((canonicalMembers ms).foldl (fun acc m => insert m.1 m.2 acc) done) last :: stack,
        .after⟩
  | [], h, _, _, _, _, _, _ => absurd rfl h
  | [(k, v)], _, stack, done, _, _, hv, hd => by
      simp only [integralMembers, Bool.and_true] at hv
      simp only [depthMembers, Nat.max_zero] at hd
      have hvalue : Yields limit _ _ _ := yields_text v (.object done k :: stack) .plain hv hd
      refine ⟨k, ?_⟩
      rw [membersText, List.append_cons]
      exact (reads_key k).append_yields hvalue
  | (k, v) :: m :: rest, _, stack, done, _, _, hv, hd => by
      rw [integralMembers, Bool.and_eq_true] at hv
      rw [depthMembers] at hd
      have hvalue : Yields limit _ _ _ := yields_text v (.object done k :: stack) .plain hv.1
        (by rw [List.length_cons]; omega)
      obtain ⟨last, hrest⟩ : ∃ last, Yields limit _ _ _ :=
        yields_members (m :: rest) (List.cons_ne_nil _ _) stack (insert k v.canonical done) k false
          hv.2 (by omega)
      refine ⟨last, ?_⟩
      rw [membersText.eq_3 k v (m :: rest) (List.cons_ne_nil _ _), List.append_cons]
      exact (reads_key k).append_yields (hvalue.append rfl (.cons (fun _ => rfl) hrest))

end

end Machine

/-- The text of a document gives the document back, its members sorted. -/
theorem parseWithin_print {limit : Nat} {v : Json} (hv : v.integral = true)
    (hd : v.depth ≤ limit) : parseWithin limit v.print = .ok v.canonical := by
  have hyields : Yields limit .start v.text (behind [] v.canonical) :=
    yields_text v [] .plain hv (by simpa using hd)
  obtain ⟨pos, hread⟩ := hyields 0
  have hrun := hread [] rfl
  rw [List.append_nil] at hrun
  rw [parseWithin, print, String.toList_ofList, hrun]
  rfl

theorem parse_print {v : Json} (hv : v.integral = true) (hd : v.depth ≤ nestingLimit) :
    parse v.print = .ok v.canonical :=
  parseWithin_print hv hd

/-- A document with sorted members is read back as it was written. -/
theorem parse_print_of_sorted {v : Json} (hs : v.sorted = true) (hv : v.integral = true)
    (hd : v.depth ≤ nestingLimit) : parse v.print = .ok v := by
  rw [parse_print hv hd, canonical_of_sorted hs]

end Conformance.Json
