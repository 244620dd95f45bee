/-
Conformance — a message is one line.

The text of a document has no control character in it: in a string they are
escaped, and nothing else has one.  So no octet of a message is below 32, the
newline among them, and a frame has a newline at its end and nowhere else.
-/
import Conformance.Json.Print
import Conformance.Proofs.Text.Encoding
import Conformance.Text.Lines

namespace Conformance.Json

/-- No control character is among the characters. -/
def Printable (cs : List Char) : Prop := ∀ c ∈ cs, 0x20 ≤ c.toNat

section Lists

variable {c : Char} {cs ds : List Char}

@[simp] theorem printable_nil : Printable [] := fun _ h => absurd h List.not_mem_nil

@[simp] theorem printable_cons : Printable (c :: cs) ↔ 0x20 ≤ c.toNat ∧ Printable cs :=
  List.forall_mem_cons

@[simp] theorem printable_append : Printable (cs ++ ds) ↔ Printable cs ∧ Printable ds :=
  List.forall_mem_append

theorem Printable.take (h : Printable cs) (k : Nat) : Printable (cs.take k) :=
  fun c hc => h c (List.mem_of_mem_take hc)

theorem Printable.drop (h : Printable cs) (k : Nat) : Printable (cs.drop k) :=
  fun c hc => h c (List.mem_of_mem_drop hc)

theorem printable_replicate (h : 0x20 ≤ c.toNat) (k : Nat) : Printable (List.replicate k c) := by
  intro d hd
  rw [(List.mem_replicate.mp hd).2]
  exact h

end Lists

/-! ## Numbers -/

theorem printable_digitChar (n : Nat) : 0x20 ≤ (Nat.digitChar n).toNat := by
  have hdigits : ∀ k : Fin 16, 0x20 ≤ (Nat.digitChar k).toNat := by decide
  by_cases hn : n < 16
  · exact hdigits ⟨n, hn⟩
  · have hother : Nat.digitChar n = '*' := by
      simp only [Nat.digitChar]
      repeat rw [if_neg (by omega)]
    rw [hother]
    decide

theorem printable_toDigitsCore (base fuel : Nat) : ∀ (n : Nat) {ds : List Char},
    Printable ds → Printable (Nat.toDigitsCore base fuel n ds) := by
  induction fuel with
  | zero => exact fun n ds h => h
  | succ fuel ih =>
      intro n ds h
      have hcons : Printable (Nat.digitChar (n % base) :: ds) :=
        printable_cons.mpr ⟨printable_digitChar _, h⟩
      simp only [Nat.toDigitsCore]
      split
      · exact hcons
      · exact ih _ hcons

theorem printable_toDigits (base n : Nat) : Printable (Nat.toDigits base n) :=
  printable_toDigitsCore base (n + 1) n printable_nil

theorem printable_positional {ds : List Char} (h : Printable ds) (n : Int) :
    Printable (Number.positional ds n) := by
  have hzeros : ∀ k, Printable (List.replicate k '0') := printable_replicate (by decide)
  rw [Number.positional]
  dsimp only
  split_ifs
  · simp [h, hzeros]
  · simp [h, hzeros]
  · simp [h.take, h.drop]

theorem printable_scientific {ds : List Char} (h : Printable ds) (e : Int) :
    Printable (Number.scientific ds e) := by
  have hexponent : Printable
      (if e < 0 then '-' :: Nat.toDigits 10 (-e).toNat else '+' :: Nat.toDigits 10 e.toNat) := by
    split_ifs <;> simp [printable_toDigits]
  rcases ds with _ | ⟨d, _ | ⟨second, rest⟩⟩ <;> simp_all [Number.scientific]

theorem printable_number (n : Number) : Printable n.text := by
  cases n with
  | int i =>
      rw [Number.text]
      split_ifs <;> simp [printable_toDigits]
  | float x =>
      simp only [Number.text, Number.floatText]
      split_ifs <;> simp [printable_positional, printable_scientific, printable_toDigits]

/-! ## Strings and documents -/

theorem printable_stringChar (c : Char) : Printable (stringChar c) := by
  unfold stringChar
  split
  case h_8 =>
    split_ifs with hlow
    · simp [Text.hex, printable_toDigits]
    · simp [Text.hex, printable_toDigits]
    · exact printable_cons.mpr ⟨Nat.le_of_not_lt hlow, printable_nil⟩
  all_goals simp

theorem printable_stringText (s : String) : Printable (stringText s) := by
  have hbody : Printable (s.toList.flatMap stringChar) := by
    intro c hc
    obtain ⟨d, _, hd⟩ := List.mem_flatMap.mp hc
    exact printable_stringChar d c hd
  simp [stringText, hbody]

mutual

theorem printable_text : ∀ v : Json, Printable v.text
  | .null | .bool true | .bool false => by simp [text]
  | .num n => by
      rw [text]
      exact printable_number n
  | .str s => by
      rw [text]
      exact printable_stringText s
  | .arr xs => by simp [text, printable_itemsText xs]
  | .obj ms => by simp [text, printable_membersText ms]

theorem printable_itemsText : ∀ xs : List Json, Printable (itemsText xs)
  | [] => by simp [itemsText]
  | [x] => by simpa [itemsText] using printable_text x
  | x :: y :: rest => by
      have hx := printable_text x
      have hrest := printable_itemsText (y :: rest)
      simp [itemsText, hx, hrest]

theorem printable_membersText : ∀ ms : List (String × Json), Printable (membersText ms)
  | [] => by simp [membersText]
  | [(k, v)] => by simp [membersText, printable_stringText, printable_text v]
  | (k, v) :: m :: rest => by
      have hv := printable_text v
      have hrest := printable_membersText (m :: rest)
      simp [membersText, printable_stringText, hv, hrest]

end

/-- No octet of a document is a control character. -/
theorem low_not_mem_print (v : Json) {b : UInt8} (hb : b.toNat < 0x20) :
    b ∉ Utf8.encode v.print := by
  intro h
  have hchar := Utf8.mem_of_mem_encode (Nat.lt_trans hb (by decide)) h
  rw [print, String.toList_ofList] at hchar
  have hlow := printable_text v _ hchar
  have hsame : (Char.ofNat b.toNat).toNat = b.toNat :=
    Utf8.toNat_ofNat (.inl (by omega))
  omega

/-- The octets of a document have no newline among them. -/
theorem newline_not_mem_print (v : Json) : Text.newline ∉ Utf8.encode v.print :=
  low_not_mem_print v (by decide)

end Conformance.Json
