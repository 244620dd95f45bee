/-
Conformance — what decoders find in a sorted document, and what they can give.

Every reader of a text sees its document with the members sorted.  What a decoder can give at all
is told by `Decoder.Gives`, from the parts up: words from `word`, sorted documents from `value`, and
from `nullable value` nothing or a document that is not `null`.  A record gives what its two forms
give (`gives_record`), and these take their fields by `of_member`, `of_item` and the like.
-/
import Conformance.Proofs.Json.Words
import Conformance.Wire.Response

namespace Conformance

namespace Wire

/-! ## What decoders give -/

/-- What the decoder gives for a sorted document is `P`. -/
def Decoder.Gives {α : Type} (d : Decoder α) (P : α → Prop) : Prop :=
  ∀ v x, v.sorted = true → d v = .ok x → P x

section Decoders

variable {α β : Type} {P : α → Prop} {d : Decoder α}

/-- A part that is missing is no fault of the part. -/
def OnSome (P : α → Prop) (o : Option α) : Prop := ∀ a, o = some a → P a

theorem ok_of_map {c : Decoded α} {f : α → β} {b : β} (h : c.map f = .ok b) :
    ∃ a, c = .ok a ∧ f a = b := by
  cases c with
  | ok a => exact ⟨a, rfl, Except.ok.inj h⟩
  | error e => exact nomatch h

theorem range_of_integer {lo hi i : Int} {name : String} {v : Json}
    (h : integer lo hi name v = .ok i) : lo ≤ i ∧ i ≤ hi := by
  unfold integer at h
  split at h
  · split at h
    · rename_i hrange
      cases h
      simpa using hrange
    · exact nomatch h
  · exact nomatch h

/-- A natural that a word can hold. -/
def IsWord (n : Nat) : Prop := n < Word.bound

instance (n : Nat) : Decidable (IsWord n) := inferInstanceAs (Decidable (n < Word.bound))

/-- An integer that a signed word can hold. -/
def IsSignedWord (i : Int) : Prop := -Word.signedBound ≤ i ∧ i < Word.signedBound

instance (i : Int) : Decidable (IsSignedWord i) :=
  inferInstanceAs (Decidable (-Word.signedBound ≤ i ∧ i < Word.signedBound))

theorem gives_word : Decoder.Gives word IsWord := by
  intro v n _ h
  obtain ⟨i, hi, rfl⟩ := ok_of_map h
  have hrange := range_of_integer hi
  rw [IsWord]
  omega

theorem gives_signedWord : Decoder.Gives signedWord IsSignedWord := by
  intro v i _ h
  have hrange := range_of_integer h
  rw [IsSignedWord]
  omega

theorem gives_value : Decoder.Gives value (·.sorted = true) := by
  intro v x hv h
  cases h
  exact hv

/-- A document that is not `null`, if any. -/
def Meant (o : Option Json) : Prop := OnSome (fun v => v.sorted = true ∧ v ≠ .null) o

theorem gives_nullable (hd : d.Gives P) : Decoder.Gives (nullable d) (OnSome P) := by
  intro v o hv h a ha
  subst ha
  unfold nullable at h
  split at h
  · exact nomatch h
  · obtain ⟨x, hx, heq⟩ := ok_of_map h
    cases heq
    exact hd _ _ hv hx

theorem gives_nullable_value : Decoder.Gives (nullable value) Meant := by
  intro v o hv h a ha
  subst ha
  unfold nullable at h
  split at h
  · exact nomatch h
  · rename_i hnull
    cases h
    exact ⟨hv, hnull⟩

/-- A record gives what its two forms give. -/
theorem gives_record {name : String} {ofMembers : List (String × Json) → Decoded α}
    {ofItems : List Json → Decoded α}
    (hms : ∀ ms x, Json.sortedMembers ms = true → ofMembers ms = .ok x → P x)
    (hxs : ∀ xs x, Json.sortedItems xs = true → ofItems xs = .ok x → P x) :
    Decoder.Gives (record name ofMembers ofItems) P := by
  intro v x hv h
  cases v with
  | obj ms =>
      have hsorted : Json.sortedMembers ms = true := by
        simp only [Json.sorted, Bool.and_eq_true] at hv
        exact hv.2
      exact hms ms x hsorted h
  | arr xs => exact hxs xs x (by simpa [Json.sorted] using hv) h
  | null | bool | num | str => exact nomatch h

section Fields

variable {ms : List (String × Json)} {xs : List Json} {key name : String} {i n : Nat}
variable {o : Option α} {a : α}

theorem of_member (hd : d.Gives P) (hms : Json.sortedMembers ms = true)
    (h : member ms key d = .ok o) : OnSome P o := by
  rintro a rfl
  rw [member] at h
  split at h
  · rename_i v hv
    obtain ⟨x, hx, heq⟩ := ok_of_map h
    cases heq
    exact hd v a (Json.sorted_of_lookup hms hv) hx
  · exact nomatch h

theorem of_item (hd : d.Gives P) (hxs : Json.sortedItems xs = true) (h : item xs i d = .ok o) :
    OnSome P o := by
  rintro a rfl
  rw [item] at h
  split at h
  · rename_i v hv
    obtain ⟨x, hx, heq⟩ := ok_of_map h
    cases heq
    exact hd v a (Json.sorted_of_getElem hxs hv) hx
  · exact nomatch h

theorem of_requiredItem (hd : d.Gives P) (hxs : Json.sortedItems xs = true)
    (h : requiredItem name n xs i d = .ok a) : P a := by
  rw [requiredItem] at h
  split at h
  · exact hd _ a (Json.sorted_of_getElem hxs ‹_›) h
  · exact nomatch h

theorem of_required (ho : OnSome P o) (h : required name o = .ok a) : P a := by
  cases o with
  | none => exact nomatch h
  | some b =>
      cases h
      exact ho a rfl

/-- What is missing is `null`, and `null` is nothing. -/
theorem onSome_join {o : Option (Option α)} (h : OnSome (OnSome P) o) : OnSome P o.join := by
  intro a ha
  cases o with
  | none => exact nomatch ha
  | some b => exact h b rfl a ha

end Fields

end Decoders

/-! ## What is read back -/

/-- The documents in optional parts are sorted. -/
def Tidy (o : Option Json) : Prop := OnSome (·.sorted = true) o

/-- A `null` that stands for nothing. -/
def settle : Option Json → Option Json
  | some .null => none
  | o => o

@[simp]
theorem settle_none : settle none = none := rfl

theorem tidy_of_meant {o : Option Json} (h : Meant o) : Tidy o := fun v hv => (h v hv).1

theorem settle_of_meant {o : Option Json} (h : Meant o) : settle o = o := by
  cases o with
  | none => rfl
  | some v =>
      have hv := (h v rfl).2
      cases v <;> first | rfl | exact absurd rfl hv

/-- An optional document is read as what is left of it. -/
theorem nullable_value (v : Json) : nullable value v = .ok (settle (some v)) := by
  cases v <;> rfl

theorem word_nat {n : Nat} (h : IsWord n) : word (.nat n) = .ok n := by
  have hrange : (0 ≤ (n : Int) && (n : Int) ≤ Word.bound - 1) = true := by
    rw [Bool.and_eq_true, decide_eq_true_eq, decide_eq_true_eq]
    rw [IsWord] at h
    omega
  simp only [word, Json.nat, integer, hrange, if_true]
  rfl

theorem signedWord_int {i : Int} (h : IsSignedWord i) :
    signedWord (.int i) = .ok i := by
  have hrange : (-(Word.signedBound : Int) ≤ i && i ≤ Word.signedBound - 1) = true := by
    rw [Bool.and_eq_true, decide_eq_true_eq, decide_eq_true_eq]
    rw [IsSignedWord] at h
    omega
  simp only [signedWord, Json.int, integer, hrange, if_true]

@[simp]
theorem canonical_nat (n : Nat) : (Json.nat n).canonical = .nat n := by
  rw [Json.nat, Json.canonical]

@[simp]
theorem canonical_int (i : Int) : (Json.int i).canonical = .int i := by
  rw [Json.int, Json.canonical]

section Reading

variable {α β : Type}

@[simp]
theorem ok_bind (a : α) (f : α → Decoded β) : (.ok a : Decoded α) >>= f = f a := rfl

@[simp]
theorem map_ok (a : α) (f : α → β) : (.ok a : Decoded α).map f = .ok (f a) := rfl

@[simp]
theorem functor_map_ok (a : α) (f : α → β) : f <$> (.ok a : Decoded α) = .ok (f a) := rfl

@[simp]
theorem required_some (name : String) (a : α) : required name (some a) = .ok a := rfl

@[simp]
theorem string_str (s : String) : string (.str s) = .ok s := rfl

@[simp]
theorem value_eq (v : Json) : value v = .ok v := rfl

theorem nullable_of_ne {d : Decoder α} {v : Json} (h : v ≠ .null) :
    nullable d v = (d v).map some := by
  cases v <;> first | rfl | exact absurd rfl h

@[simp]
theorem nullable_text (o : Option String) :
    nullable string (Json.ofOption .str o).canonical = .ok o := by
  cases o <;> simp [Json.ofOption, Json.canonical, nullable]

end Reading

end Wire

end Conformance
