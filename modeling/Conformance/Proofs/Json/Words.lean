/-
Conformance — the integers of a document that was read.

A numeral is gathered in one word, and what no word holds becomes a double.  So every integer that
a text brings is one of a 64-bit word (`inWords_of_parse`).  The invariant of the reader says this
of all that is complete, in the containers still open as well; of a numeral under way it says that
its digits fit one word.
-/
import Conformance.Proofs.Json.Canonical

namespace Conformance

theorem ok_of_bind {α β ε : Type} {x : Except ε α} {f : α → Except ε β} {b : β}
    (h : x >>= f = .ok b) : ∃ a, x = .ok a ∧ f a = .ok b := by
  cases x with
  | ok a => exact ⟨a, rfl, h⟩
  | error e => exact nomatch h

theorem Text.digit?_lt {base d : Nat} {c : Char} (h : Text.digit? base c = some d) : d < base := by
  unfold Text.digit? at h
  extract_lets value at h
  split at h
  · exact Option.some.inj h ▸ ‹value < base›
  · exact nomatch h

namespace Json

/-- An integer of a 64-bit word, or a double. -/
def Number.fits : Number → Bool
  | .int i => Number.isWord (.int i)
  | .float _ => true

mutual

/-- Every integer is one of a 64-bit word. -/
def inWords : Json → Bool
  | .num n => n.fits
  | .arr xs => inWordsItems xs
  | .obj ms => inWordsMembers ms
  | .null | .bool _ | .str _ => true

def inWordsItems : List Json → Bool
  | [] => true
  | x :: xs => inWords x && inWordsItems xs

def inWordsMembers : List (String × Json) → Bool
  | [] => true
  | (_, v) :: rest => inWords v && inWordsMembers rest

end

theorem inWordsItems_iff {xs : List Json} :
    inWordsItems xs = true ↔ ∀ x ∈ xs, x.inWords = true := by
  induction xs with
  | nil => simp [inWordsItems]
  | cons x xs ih => simp [inWordsItems, ih]

theorem inWordsMembers_iff {ms : List (String × Json)} :
    inWordsMembers ms = true ↔ ∀ m ∈ ms, m.2.inWords = true := by
  induction ms with
  | nil => simp [inWordsMembers]
  | cons m ms ih =>
      obtain ⟨k, v⟩ := m
      rw [inWordsMembers, Bool.and_eq_true, ih, List.forall_mem_cons]

theorem inWords_of_get? {v u : Json} {key : String} (hv : v.inWords = true)
    (hu : v.get? key = some u) : u.inWords = true := by
  cases v with
  | obj ms =>
      obtain ⟨_, hms, _⟩ := List.lookup_eq_some_iff.mp hu
      rw [inWords] at hv
      exact inWordsMembers_iff.mp hv (key, u) (by simp_all)
  | null | bool | num | str | arr => exact nomatch hu

/-- A natural of a document is a word. -/
theorem lt_of_asNat? {v : Json} {n : Nat} (hv : v.inWords = true) (hn : v.asNat? = some n) :
    n < Word.bound := by
  cases v with
  | num m =>
      cases m with
      | int i =>
          have hi : i < Word.bound := by
            simp only [inWords, Number.fits, Number.isWord, decide_eq_true_eq] at hv
            exact hv.2
          simp only [asNat?] at hn
          split_ifs at hn with hpos
          cases hn
          omega
      | float x => cases hn
  | null | bool | str | arr | obj => cases hn

/-! ## Numerals -/

namespace Number

theorem push?_lt {s d t : Nat} (h : push? s d = some t) : t < Word.bound := by
  dsimp only [push?] at h
  split_ifs at h with hlt
  cases h
  exact hlt

theorem Numeral.digit_lt {n : Numeral} (h : n.significand < Word.bound) (d : Nat) :
    (n.digit d).significand < Word.bound := by
  unfold Numeral.digit
  split
  · exact push?_lt ‹_›
  · exact h

theorem Numeral.fractionDigit_lt {n : Numeral} (h : n.significand < Word.bound) (d : Nat) :
    (n.fractionDigit d).significand < Word.bound := by
  unfold Numeral.fractionDigit
  split
  · exact push?_lt ‹_›
  · exact h

theorem Numeral.fits_of_float? {n : Numeral} {e : Int} {v : Number} (h : n.float? e = some v) :
    v.fits = true := by
  obtain ⟨x, _, rfl⟩ := Option.map_eq_some_iff.mp h
  rfl

theorem Numeral.fits_of_integer? {n : Numeral} {v : Number} (hn : n.significand < Word.bound)
    (h : n.integer? = some v) : v.fits = true := by
  unfold Numeral.integer? at h
  split_ifs at h with hspilt hnegative hdouble
  · exact fits_of_float? h
  · cases h
    simp only [fits, isWord, decide_eq_true_eq]
    omega
  · cases h
    rfl
  · cases h
    have hsmall : ¬ n.significand > Word.signedBound := by simp_all
    simp only [fits, isWord, decide_eq_true_eq]
    omega

end Number

/-! ## The reader -/

/-- What a container still open holds so far. -/
def Frame.InWords : Frame → Prop
  | .list done => ∀ x ∈ done, x.inWords = true
  | .object done _ => ∀ m ∈ done, m.2.inWords = true

/-- A value that is there, or digits that may become one. -/
def Mode.InWords : Mode → Prop
  | .finished v | .word _ v => v.inWords = true
  | .number n => n.numeral.significand < Word.bound
  | _ => True

namespace State

structure InWords (s : State) : Prop where
  stack : ∀ f ∈ s.stack, f.InWords
  mode : s.mode.InWords

variable {s s' : State} {v : Json} {limit pos : Nat} {c : Char}

theorem InWords.push (h : ∀ f ∈ s.stack, f.InWords) (hv : v.inWords = true) :
    (s.push v).InWords := by
  unfold State.push
  split
  · exact ⟨h, hv⟩
  · rename_i done rest heq
    rw [heq] at h
    obtain ⟨hdone, hrest⟩ := List.forall_mem_cons.mp h
    exact ⟨List.forall_mem_cons.mpr ⟨List.forall_mem_cons.mpr ⟨hv, hdone⟩, hrest⟩, trivial⟩
  · rename_i done key rest heq
    rw [heq] at h
    obtain ⟨hdone, hrest⟩ := List.forall_mem_cons.mp h
    refine ⟨List.forall_mem_cons.mpr ⟨fun m hm => ?_, hrest⟩, trivial⟩
    rcases mem_insert hm with rfl | hold
    · exact hv
    · exact hdone m hold

theorem InWords.close (h : s.InWords) : s.close.InWords := by
  have hstack := h.stack
  unfold State.close
  split
  · exact h
  · rename_i done rest heq
    rw [heq] at hstack
    obtain ⟨hdone, hrest⟩ := List.forall_mem_cons.mp hstack
    refine .push hrest ?_
    rw [inWords, inWordsItems_iff]
    exact fun x hx => hdone x (List.mem_reverse.mp hx)
  · rename_i done key rest heq
    rw [heq] at hstack
    obtain ⟨hdone, hrest⟩ := List.forall_mem_cons.mp hstack
    refine .push hrest ?_
    rw [inWords, inWordsMembers_iff]
    exact hdone

theorem InWords.nest {f : Frame} {m : Mode} (h : s.InWords) (hf : f.InWords) (hm : m.InWords)
    (hnest : s.nest limit pos f m = .ok s') : s'.InWords := by
  unfold State.nest at hnest
  split_ifs at hnest
  cases hnest
  exact ⟨List.forall_mem_cons.mpr ⟨hf, h.stack⟩, hm⟩

theorem InWords.begin (h : s.InWords) (hbegin : s.begin limit pos c = .ok s') : s'.InWords := by
  unfold State.begin at hbegin
  split at hbegin
  case h_2 => exact h.nest (f := .list []) (m := .value .firstItem) nofun trivial hbegin
  case h_3 => exact h.nest (f := .object [] "") (m := .key true) nofun trivial hbegin
  case h_9 =>
    split at hbegin
    · rename_i d hd
      cases hbegin
      exact ⟨h.stack, show d < Word.bound from Nat.lt_trans (Text.digit?_lt hd) (by decide)⟩
    · exact nomatch hbegin
  all_goals
    cases hbegin
    exact ⟨h.stack, by simp [Mode.InWords, inWords, Word.bound]⟩

theorem InWords.next (h : s.InWords) (hnext : s.next pos c = .ok s') : s'.InWords := by
  unfold State.next at hnext
  split at hnext
  · cases hnext
    exact h
  · split at hnext
    case h_1 | h_2 =>
      split at hnext
      · cases hnext
        exact ⟨h.stack, trivial⟩
      · split at hnext
        · cases hnext
          exact h.close
        · exact nomatch hnext
    case h_3 => exact nomatch hnext

theorem InWords.endString (h : s.InWords) (isKey : Bool) (done : List Char) :
    (s.endString isKey done).InWords := by
  have hstack := h.stack
  unfold State.endString
  split
  · rename_i members key rest heq
    rw [heq] at hstack
    obtain ⟨hdone, hrest⟩ := List.forall_mem_cons.mp hstack
    exact ⟨List.forall_mem_cons.mpr ⟨hdone, hrest⟩, trivial⟩
  · exact .push h.stack rfl

end State

namespace Numbering

variable {n n' : Numbering} {pos : Nat} {c : Char}

theorem exponentDigit_lt {d : Nat} (hn : n.numeral.significand < Word.bound)
    (h : n.exponentDigit pos d = .ok n') : n'.numeral.significand < Word.bound := by
  dsimp only [exponentDigit] at h
  split_ifs at h
  cases h
  exact hn

theorem step_lt (hn : n.numeral.significand < Word.bound) (h : n.step pos c = .ok (some n')) :
    n'.numeral.significand < Word.bound := by
  have hmark : ∀ {d : Nat}, (n.exponentDigit pos d).map some = .ok (some n') →
      n'.numeral.significand < Word.bound := by
    intro d hd
    cases hdigit : n.exponentDigit pos d with
    | ok m =>
        rw [hdigit] at hd
        cases hd
        exact exponentDigit_lt hn hdigit
    | error e =>
        rw [hdigit] at hd
        exact nomatch hd
  dsimp only [step] at h
  split at h
  case h_2 | h_6 =>
    cases h
    exact Number.Numeral.digit_lt hn _
  case h_8 | h_10 =>
    cases h
    exact Number.Numeral.fractionDigit_lt hn _
  case h_12 | h_14 | h_16 => exact hmark h
  case h_5 | h_7 | h_11 | h_13 => split_ifs at h <;> cases h <;> exact hn
  all_goals cases h <;> exact hn

theorem inWords_of_finish {v : Json} (hn : n.numeral.significand < Word.bound)
    (h : n.finish pos = .ok v) : v.inWords = true := by
  dsimp only [finish] at h
  split at h
  · rename_i m hm
    cases h
    rw [inWords]
    split at hm
    · exact Number.Numeral.fits_of_float? hm
    · exact Number.Numeral.fits_of_float? hm
    · exact Number.Numeral.fits_of_integer? hn hm
  · exact nomatch h

end Numbering

namespace State

variable {s s' : State} {v : Json} {limit pos : Nat} {c : Char}

/-- One character keeps what is complete within words. -/
theorem InWords.step (h : s.InWords) (hstep : s.step limit pos c = .ok s') : s'.InWords := by
  have hmode := h.mode
  have hplain : ∀ {m : Mode}, m.InWords → State.InWords { s with mode := m } :=
    fun hm => ⟨h.stack, hm⟩
  unfold State.step at hstep
  split at hstep
  case h_1 due heq =>
    split_ifs at hstep
    · cases hstep
      exact h
    · cases hstep
      exact h.close
    · exact h.begin hstep
  case h_2 | h_3 => exact h.next hstep
  case h_4 first heq =>
    split_ifs at hstep
    · cases hstep
      exact h
    · cases hstep
      exact hplain trivial
    · cases hstep
      exact h.close
  case h_5 heq =>
    split_ifs at hstep
    · cases hstep
      exact h
    · cases hstep
      exact hplain trivial
  case h_6 rest v heq =>
    rw [heq] at hmode
    split at hstep
    · exact nomatch hstep
    · split_ifs at hstep
      cases hstep
      exact .push h.stack hmode
    · split_ifs at hstep
      cases hstep
      exact hplain hmode
  case h_7 n heq =>
    rw [heq] at hmode
    obtain ⟨o, ho, hstep⟩ := ok_of_bind hstep
    cases o with
    | some n' =>
        cases hstep
        exact hplain (Numbering.step_lt hmode ho)
    | none =>
        obtain ⟨v, hv, hstep⟩ := ok_of_bind hstep
        exact (InWords.push h.stack (Numbering.inWords_of_finish hmode hv)).next hstep
  case h_8 isKey done heq =>
    split_ifs at hstep
    · cases hstep
      exact h.endString isKey done
    · cases hstep
      exact hplain trivial
    · cases hstep
      exact hplain trivial
  case h_9 isKey done escape _ heq =>
    obtain ⟨⟨done', escape'⟩, _, hstep⟩ := ok_of_bind hstep
    cases hstep
    exact hplain trivial

theorem InWords.ended (h : s.InWords) (hend : s.ended pos = .ok v) : v.inWords = true := by
  have hmode := h.mode
  unfold State.ended at hend
  split at hend
  case h_1 heq =>
    cases hend
    rw [heq] at hmode
    exact hmode
  all_goals exact nomatch hend

theorem InWords.finish (h : s.InWords) (hfinish : s.finish pos = .ok v) : v.inWords = true := by
  have hmode := h.mode
  unfold State.finish at hfinish
  split at hfinish
  · rename_i n heq
    rw [heq] at hmode
    split at hfinish
    case h_5 => exact nomatch hfinish
    all_goals
      obtain ⟨u, hu, hfinish⟩ := ok_of_bind hfinish
      exact (InWords.push h.stack (Numbering.inWords_of_finish hmode hu)).ended hfinish
  · exact h.ended hfinish

end State

theorem inWords_of_run {limit : Nat} {v : Json} : ∀ {cs : List Char} {s : State} {pos : Nat},
    s.InWords → run limit s pos cs = .ok v → v.inWords = true
  | [], _, _, hs, h => hs.finish h
  | _ :: _, _, _, hs, h => by
      obtain ⟨s', hstep, hrest⟩ := ok_of_bind h
      exact inWords_of_run (hs.step hstep) hrest

/-- A text brings no integer beyond a 64-bit word. -/
theorem inWords_of_parse {text : String} {v : Json} (h : parse text = .ok v) :
    v.inWords = true := by
  unfold parse parseWithin at h
  split at h
  · rename_i u hu
    cases h
    have hstart : State.start.InWords := { stack := nofun, mode := trivial }
    exact inWords_of_run hstart hu
  · exact nomatch h

end Json

end Conformance
