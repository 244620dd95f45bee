/-
Conformance — strict reading of UTF-8 is the inverse of writing it.

The encoding of a character is that of the standard library.  A first octet
promises so many octets more, each in a range; `Owes` is that this promise is
kept, and with which value.  A character is read where the promise is kept
(`pieces_of_owes`) and only there (`owes_of_pieces`), and the octets of a kept
promise are those of the character with that value (`encodeChar_of_start`).  The
narrower ranges behind some first octets are what leaves out the longer forms
and the surrogates.
-/
import Conformance.Text.Utf8
import Mathlib.Data.UInt

namespace Conformance.Utf8

/-- The octets keep the promise of a character that has started, and make it the
character with this value. -/
inductive Owes : Partial → List UInt8 → Nat → Prop
  | last {p : Partial} {b : UInt8} : p.least ≤ b.toNat → b.toNat ≤ p.most → p.owed ≤ 1 →
      Owes p [b] (p.value * 64 + (b.toNat - 0x80))
  | more {p : Partial} {b : UInt8} {tail : List UInt8} {v : Nat} : p.least ≤ b.toNat →
      b.toNat ≤ p.most → 1 < p.owed →
      Owes { value := p.value * 64 + (b.toNat - 0x80), owed := p.owed - 1 } tail v →
      Owes p (b :: tail) v

/-- Where the promise is kept, a character is read. -/
theorem pieces_of_owes {p : Partial} {tail : List UInt8} {v : Nat} (h : Owes p tail v)
    (rest : List UInt8) :
    pieces (some p) (tail ++ rest) = .char (Char.ofNat v) :: pieces none rest := by
  induction h with
  | last hleast hmost howed =>
      rw [List.singleton_append, pieces]
      simp [hleast, hmost, howed]
  | more hleast hmost howed _ ih =>
      rw [List.cons_append, pieces]
      simp [hleast, hmost, Nat.not_le.mpr howed, ih]

/-- The characters of a sequence of octets, if it is well-formed. -/
def chars? (bs : List UInt8) : Option (List Char) := (pieces none bs).mapM Piece.char?

theorem chars?_nil : chars? [] = some [] := by
  rw [chars?, pieces, List.mapM_nil]
  rfl

/-- A sequence that is read to its end keeps the promise of a character that had started. -/
theorem owes_of_pieces {bs : List UInt8} : ∀ {p : Partial} {cs : List Char},
    (pieces (some p) bs).mapM Piece.char? = some cs →
      ∃ tail rest v cs', bs = tail ++ rest ∧ Owes p tail v ∧ cs = Char.ofNat v :: cs' ∧
        chars? rest = some cs' := by
  induction bs with
  | nil =>
      intro p cs h
      simp [pieces, Piece.char?] at h
  | cons b bs ih =>
      intro p cs h
      rw [pieces] at h
      dsimp only at h
      split at h
      · rename_i hrange
        rw [Bool.and_eq_true, decide_eq_true_eq, decide_eq_true_eq] at hrange
        split at h
        · rename_i howed
          rw [List.mapM_cons] at h
          obtain ⟨cs', hrest, hcs⟩ : ∃ cs', chars? bs = some cs' ∧
              cs = Char.ofNat (p.value * 64 + (b.toNat - 128)) :: cs' := by
            cases hr : (pieces none bs).mapM Piece.char? with
            | none => simp [hr, Piece.char?] at h
            | some cs' => exact ⟨cs', hr, by simpa [hr, Piece.char?, eq_comm] using h⟩
          exact ⟨[b], bs, _, cs', rfl, .last hrange.1 hrange.2 howed, hcs, hrest⟩
        · rename_i howed
          obtain ⟨tail, rest, v, cs', rfl, howes, hcs, hrest⟩ := ih h
          exact ⟨b :: tail, rest, v, cs', rfl,
            .more hrange.1 hrange.2 (Nat.not_le.mp howed) howes, hcs, hrest⟩
      · simp [Piece.char?] at h

/-! ## Characters -/

theorem owes_one {p : Partial} {tail : List UInt8} {v : Nat} (h : Owes p tail v)
    (hp : p.owed = 1) :
    ∃ b, tail = [b] ∧ p.least ≤ b.toNat ∧ b.toNat ≤ p.most ∧
      v = p.value * 64 + (b.toNat - 0x80) := by
  cases h with
  | last hleast hmost _ => exact ⟨_, rfl, hleast, hmost, rfl⟩
  | more _ _ howed _ => omega

theorem owes_more {p : Partial} {tail : List UInt8} {v n : Nat} (h : Owes p tail v)
    (hp : p.owed = n + 2) :
    ∃ b tail', tail = b :: tail' ∧ p.least ≤ b.toNat ∧ b.toNat ≤ p.most ∧
      Owes { value := p.value * 64 + (b.toNat - 0x80), owed := n + 1 } tail' v := by
  cases h with
  | last _ _ howed => omega
  | more hleast hmost _ hrest =>
      rw [hp] at hrest
      exact ⟨_, _, rfl, hleast, hmost, hrest⟩

theorem owes_last {p : Partial} {b : UInt8} {v : Nat} (howed : p.owed = 1)
    (hb : p.least ≤ b.toNat ∧ b.toNat ≤ p.most) (hv : v = p.value * 64 + (b.toNat - 0x80)) :
    Owes p [b] v :=
  hv ▸ .last hb.1 hb.2 (Nat.le_of_eq howed)

theorem owes_cons {p : Partial} {b : UInt8} {tail : List UInt8} {v n : Nat}
    (howed : p.owed = n + 2) (hb : p.least ≤ b.toNat ∧ b.toNat ≤ p.most)
    (hrest : Owes { value := p.value * 64 + (b.toNat - 0x80), owed := n + 1 } tail v) :
    Owes p (b :: tail) v := by
  refine .more hb.1 hb.2 (by omega) ?_
  rw [howed]
  exact hrest

theorem toNat_ofNat {v : Nat} (hv : v.isValidChar) : (Char.ofNat v).val.toNat = v := by
  rw [Char.ofNat, dif_pos hv]
  rfl

theorem ofNat_eq {n : Nat} {b : UInt8} (h : n = b.toNat) : UInt8.ofNat n = b := by
  rw [h, UInt8.ofNat_toNat]

theorem encodeChar_ofNat {v : Nat} (hv : v.isValidChar) :
    String.utf8EncodeChar (Char.ofNat v) =
      if v ≤ 127 then [UInt8.ofNat v]
      else if v ≤ 2047 then [UInt8.ofNat (v / 64 % 32 + 192), UInt8.ofNat (v % 64 + 128)]
      else if v ≤ 65535 then
        [UInt8.ofNat (v / 4096 % 16 + 224), UInt8.ofNat (v / 64 % 64 + 128),
          UInt8.ofNat (v % 64 + 128)]
      else
        [UInt8.ofNat (v / 262144 % 8 + 240), UInt8.ofNat (v / 4096 % 64 + 128),
          UInt8.ofNat (v / 64 % 64 + 128), UInt8.ofNat (v % 64 + 128)] := by
  simp only [String.utf8EncodeChar, toNat_ofNat hv]

section Lengths

variable {a b c d : UInt8}

theorem encodeChar_two {v : Nat} (hv : v = (a.toNat - 0xC0) * 64 + (b.toNat - 0x80))
    (ha : 0xC2 ≤ a.toNat ∧ a.toNat < 0xE0) (hb : 0x80 ≤ b.toNat ∧ b.toNat ≤ 0xBF) :
    String.utf8EncodeChar (Char.ofNat v) = [a, b] := by
  have hvalid : v.isValidChar := by
    unfold Nat.isValidChar
    omega
  rw [encodeChar_ofNat hvalid, if_neg (by omega), if_pos (by omega), ofNat_eq (b := a) (by omega),
    ofNat_eq (b := b) (by omega)]

/-- No longer form and no surrogate is among the octets. -/
theorem encodeChar_three {v : Nat}
    (hv : v = ((a.toNat - 0xE0) * 64 + (b.toNat - 0x80)) * 64 + (c.toNat - 0x80))
    (ha : 0xE0 ≤ a.toNat ∧ a.toNat < 0xF0) (hb : 0x80 ≤ b.toNat ∧ b.toNat ≤ 0xBF)
    (hlong : a.toNat = 0xE0 → 0xA0 ≤ b.toNat) (hsurrogate : a.toNat = 0xED → b.toNat ≤ 0x9F)
    (hc : 0x80 ≤ c.toNat ∧ c.toNat ≤ 0xBF) :
    String.utf8EncodeChar (Char.ofNat v) = [a, b, c] := by
  have hvalid : v.isValidChar := by
    unfold Nat.isValidChar
    omega
  rw [encodeChar_ofNat hvalid, if_neg (by omega), if_neg (by omega), if_pos (by omega),
    ofNat_eq (b := a) (by omega), ofNat_eq (b := b) (by omega), ofNat_eq (b := c) (by omega)]

/-- No longer form is among the octets, and nothing beyond the last character. -/
theorem encodeChar_four {v : Nat}
    (hv : v = (((a.toNat - 0xF0) * 64 + (b.toNat - 0x80)) * 64 + (c.toNat - 0x80)) * 64
      + (d.toNat - 0x80))
    (ha : 0xF0 ≤ a.toNat ∧ a.toNat ≤ 0xF4) (hb : 0x80 ≤ b.toNat ∧ b.toNat ≤ 0xBF)
    (hlong : a.toNat = 0xF0 → 0x90 ≤ b.toNat) (hbeyond : a.toNat = 0xF4 → b.toNat ≤ 0x8F)
    (hc : 0x80 ≤ c.toNat ∧ c.toNat ≤ 0xBF) (hd : 0x80 ≤ d.toNat ∧ d.toNat ≤ 0xBF) :
    String.utf8EncodeChar (Char.ofNat v) = [a, b, c, d] := by
  have hvalid : v.isValidChar := by
    unfold Nat.isValidChar
    omega
  rw [encodeChar_ofNat hvalid, if_neg (by omega), if_neg (by omega), if_neg (by omega),
    ofNat_eq (b := a) (by omega), ofNat_eq (b := b) (by omega), ofNat_eq (b := c) (by omega),
    ofNat_eq (b := d) (by omega)]

end Lengths

/-! ## First octets -/

section First

variable {n : Nat}

theorem lead_two (hlow : 0xC2 ≤ n) (hhigh : n < 0xE0) :
    lead n = .start { value := n - 0xC0, owed := 1 } := by
  simp only [lead]
  rw [if_neg (by omega), if_neg (by omega), if_pos hhigh]

/-- Behind two of the first octets less than sixty-four octets may follow. -/
theorem lead_three (hlow : 0xE0 ≤ n) (hhigh : n < 0xF0) :
    lead n = .start
      { value := n - 0xE0, owed := 2, least := if n = 0xE0 then 0xA0 else 0x80
        most := if n = 0xED then 0x9F else 0xBF } := by
  simp only [lead, beq_iff_eq]
  rw [if_neg (by omega), if_neg (by omega), if_neg (by omega)]
  split
  · subst n
    rfl
  · split
    · subst n
      rfl
    · rfl

theorem lead_four (hlow : 0xF0 ≤ n) (hhigh : n ≤ 0xF4) :
    lead n = .start
      { value := n - 0xF0, owed := 3, least := if n = 0xF0 then 0x90 else 0x80
        most := if n = 0xF4 then 0x8F else 0xBF } := by
  simp only [lead, beq_iff_eq]
  rw [if_neg (by omega), if_neg (by omega), if_neg (by omega), if_neg (by omega), if_neg (by omega),
    if_neg (by omega)]
  split
  · subst n
    rfl
  · split
    · rw [if_neg (by omega)]
    · have hn : n = 0xF4 := by omega
      subst n
      rfl

theorem lead_beyond (hlow : 0xF4 < n) : lead n = .broken := by
  simp only [lead, beq_iff_eq]
  rw [if_neg (by omega), if_neg (by omega), if_neg (by omega), if_neg (by omega), if_neg (by omega),
    if_neg (by omega), if_neg (by omega), if_neg (by omega), if_neg (by omega)]

theorem lead_below (hhigh : n < 0xC2) : ∀ p, lead n ≠ .start p := by
  intro p
  rw [lead]
  split <;> exact nofun

end First

/-- An octet that no character has is a part by itself. -/
theorem pieces_beyond {b : UInt8} (hb : 0xF4 < b.toNat) (bs : List UInt8) :
    pieces none (b :: bs) = .broken :: pieces none bs := by
  rw [pieces, pieces.first, lead_beyond hb]

/-- The octets of a kept promise are those of the character. -/
theorem encodeChar_of_start {b : UInt8} {p : Partial} {tail : List UInt8} {v : Nat}
    (hp : lead b.toNat = .start p) (h : Owes p tail v) :
    String.utf8EncodeChar (Char.ofNat v) = b :: tail := by
  rcases Nat.lt_or_ge b.toNat 0xC2 with hlow | hlow
  · exact absurd hp (lead_below hlow p)
  rcases Nat.lt_or_ge b.toNat 0xE0 with hhigh | hlow
  · obtain rfl := Lead.start.inj ((lead_two hlow hhigh).symm.trans hp)
    obtain ⟨c, rfl, hc, hc', hv⟩ := owes_one h rfl
    exact encodeChar_two hv ⟨hlow, hhigh⟩ ⟨hc, hc'⟩
  rcases Nat.lt_or_ge b.toNat 0xF0 with hhigh | hlow
  · obtain rfl := Lead.start.inj ((lead_three hlow hhigh).symm.trans hp)
    obtain ⟨c, _, rfl, hc, hc', hrest⟩ := owes_more h rfl
    obtain ⟨d, rfl, hd, hd', hv⟩ := owes_one hrest rfl
    dsimp only at hc hc' hv
    exact encodeChar_three hv ⟨hlow, hhigh⟩ (by split_ifs at hc hc' <;> omega)
      (fun he => by rwa [if_pos he] at hc) (fun he => by rwa [if_pos he] at hc') ⟨hd, hd'⟩
  rcases Nat.lt_or_ge 0xF4 b.toNat with hbeyond | hhigh
  · exact nomatch (lead_beyond hbeyond).symm.trans hp
  · obtain rfl := Lead.start.inj ((lead_four hlow hhigh).symm.trans hp)
    obtain ⟨c, _, rfl, hc, hc', hrest⟩ := owes_more h rfl
    obtain ⟨d, _, rfl, hd, hd', hrest⟩ := owes_more hrest rfl
    obtain ⟨e, rfl, he, he', hv⟩ := owes_one hrest rfl
    dsimp only at hc hc' hv
    exact encodeChar_four hv ⟨hlow, hhigh⟩ (by split_ifs at hc hc' <;> omega)
      (fun he => by rwa [if_pos he] at hc) (fun he => by rwa [if_pos he] at hc') ⟨hd, hd'⟩ ⟨he, he'⟩

/-- The octets of a character: one of its own, or a first octet whose promise the others keep. -/
theorem start_of_char (c : Char) :
    (∃ b, String.utf8EncodeChar c = [b] ∧ lead b.toNat = .single c) ∨
      ∃ b p tail, String.utf8EncodeChar c = b :: tail ∧ lead b.toNat = .start p ∧
        Owes p tail c.val.toNat := by
  have hscalar : c.val.toNat.isValidChar := c.valid
  have hoctet : ∀ n, n < 256 → (UInt8.ofNat n).toNat = n := fun n hn => by
    rw [UInt8.toNat_ofNat', Nat.mod_eq_of_lt hn]
  have hc : Char.ofNat c.val.toNat = c := Char.ofNat_toNat c
  unfold Nat.isValidChar at hscalar
  generalize hv : c.val.toNat = v at hscalar hc
  simp only [String.utf8EncodeChar, hv]
  rcases Nat.lt_or_ge v 0x80 with hone | hone
  · rw [if_pos (by omega)]
    refine .inl ⟨_, rfl, ?_⟩
    rw [hoctet v (by omega), lead, if_pos hone, hc]
  rw [if_neg (by omega)]
  right
  rcases Nat.lt_or_ge v 0x800 with htwo | htwo
  · rw [if_pos (by omega)]
    have h0 := hoctet (v / 64 % 32 + 192) (by omega)
    have h1 := hoctet (v % 64 + 128) (by omega)
    refine ⟨_, _, _, rfl, lead_two (by omega) (by omega), owes_last rfl ?_ ?_⟩ <;> dsimp only <;>
      omega
  rw [if_neg (by omega)]
  rcases Nat.lt_or_ge v 0x10000 with hthree | hthree
  · rw [if_pos (by omega)]
    have h0 := hoctet (v / 4096 % 16 + 224) (by omega)
    have h1 := hoctet (v / 64 % 64 + 128) (by omega)
    have h2 := hoctet (v % 64 + 128) (by omega)
    refine ⟨_, _, _, rfl, lead_three (by omega) (by omega), owes_cons rfl ?_ (owes_last rfl ?_ ?_)⟩
    · dsimp only
      split_ifs <;> omega
    · dsimp only
      omega
    · dsimp only
      omega
  · rw [if_neg (by omega)]
    have h0 := hoctet (v / 262144 % 8 + 240) (by omega)
    have h1 := hoctet (v / 4096 % 64 + 128) (by omega)
    have h2 := hoctet (v / 64 % 64 + 128) (by omega)
    have h3 := hoctet (v % 64 + 128) (by omega)
    refine ⟨_, _, _, rfl, lead_four (by omega) (by omega),
      owes_cons rfl ?_ (owes_cons rfl ?_ (owes_last rfl ?_ ?_))⟩
    · dsimp only
      split_ifs <;> omega
    · dsimp only
      omega
    · dsimp only
      omega
    · dsimp only
      omega

theorem encodeChar_of_single {b : UInt8} {c : Char} (hc : lead b.toNat = .single c) :
    String.utf8EncodeChar c = [b] := by
  have hb : b.toNat < 0x80 ∧ Char.ofNat b.toNat = c := by
    simp only [lead, beq_iff_eq] at hc
    split_ifs at hc with hsmall
    exact ⟨hsmall, by simpa using hc⟩
  have hvalid : b.toNat.isValidChar := by
    unfold Nat.isValidChar
    omega
  rw [← hb.2, encodeChar_ofNat hvalid, if_pos (by omega), UInt8.ofNat_toNat]

/-! ## Texts -/

theorem chars?_encodeChar (c : Char) (rest : List UInt8) :
    chars? (String.utf8EncodeChar c ++ rest) = (chars? rest).map (c :: ·) := by
  have hpieces : pieces none (String.utf8EncodeChar c ++ rest) = .char c :: pieces none rest := by
    rcases start_of_char c with ⟨b, hc, hb⟩ | ⟨b, p, tail, hc, hb, howes⟩
    · rw [hc, List.singleton_append, pieces, pieces.first, hb]
    · rw [hc, List.cons_append, pieces, pieces.first, hb]
      dsimp only
      rw [pieces_of_owes howes, show Char.ofNat c.val.toNat = c from Char.ofNat_toNat c]
  rw [chars?, hpieces, List.mapM_cons, chars?]
  cases (pieces none rest).mapM Piece.char? <;> rfl

theorem chars?_flatMap (cs : List Char) : chars? (cs.flatMap String.utf8EncodeChar) = some cs := by
  induction cs with
  | nil => exact chars?_nil
  | cons c cs ih => rw [List.flatMap_cons, chars?_encodeChar, ih, Option.map_some]

/-- What is read is what was written; the induction goes from character to character. -/
theorem flatMap_of_chars (bs : List UInt8) : ∀ {cs : List Char}, chars? bs = some cs →
    cs.flatMap String.utf8EncodeChar = bs := by
  induction hlength : bs.length using Nat.strongRecOn generalizing bs with
  | ind n ih =>
    intro cs h
    cases bs with
    | nil =>
        cases chars?_nil.symm.trans h
        rfl
    | cons b bs =>
        rw [chars?, pieces, pieces.first] at h
        cases hb : lead b.toNat with
        | broken => simp [hb, Piece.char?] at h
        | single c =>
            have hone := chars?_encodeChar c bs
            rw [encodeChar_of_single hb, List.singleton_append, chars?, pieces, pieces.first, h] at hone
            obtain ⟨cs', hrest, rfl⟩ := Option.map_eq_some_iff.mp hone.symm
            rw [List.flatMap_cons, encodeChar_of_single hb,
              ih bs.length (by rw [← hlength, List.length_cons]; omega) bs rfl hrest]
            rfl
        | start p =>
            rw [hb] at h
            obtain ⟨tail, rest, v, cs', rfl, howes, rfl, hrest⟩ := owes_of_pieces h
            rw [List.flatMap_cons, encodeChar_of_start hb howes,
              ih rest.length (by rw [← hlength, List.length_cons, List.length_append]; omega) rest
                rfl hrest]
            rfl

/-- Strict reading gives a text where the octets are those of the text, and nowhere else. -/
theorem decode_eq_some_iff {bs : List UInt8} {s : String} :
    decode? bs = some s ↔ encode s = bs := by
  constructor
  · intro h
    obtain ⟨cs, hcs, rfl⟩ := Option.map_eq_some_iff.mp h
    rw [encode, String.toList_ofList]
    exact flatMap_of_chars bs hcs
  · rintro rfl
    have hcs : chars? (encode s) = some s.toList := chars?_flatMap s.toList
    rw [chars?] at hcs
    rw [decode?, hcs, Option.map_some, String.ofList_toList]

/-! ## Octets of one -/

theorem least_of_lead {n : Nat} {p : Partial} (h : lead n = .start p) : 0x80 ≤ p.least := by
  have hpromise : ∀ q, Lead.start q = .start p → 0x80 ≤ q.least → 0x80 ≤ p.least := by
    rintro q hq hleast
    rwa [← Lead.start.inj hq]
  unfold lead at h
  repeat' split at h
  all_goals first
    | exact hpromise _ h (by decide)
    | exact hpromise _ h (Nat.le_refl _)
    | exact nomatch h

theorem high_of_owes {p : Partial} {tail : List UInt8} {v : Nat} (h : Owes p tail v)
    (hp : 0x80 ≤ p.least) : ∀ b ∈ tail, 0x80 ≤ b.toNat := by
  induction h with
  | last hleast =>
      intro b hb
      cases List.mem_singleton.mp hb
      exact Nat.le_trans hp hleast
  | more hleast _ _ _ ih =>
      intro b hb
      rcases List.mem_cons.mp hb with rfl | hb
      · exact Nat.le_trans hp hleast
      · exact ih (Nat.le_refl _) b hb

/-- An octet below 128 of a text is a character of it. -/
theorem mem_of_mem_encode {b : UInt8} {s : String} (hb : b.toNat < 0x80) (h : b ∈ encode s) :
    Char.ofNat b.toNat ∈ s.toList := by
  obtain ⟨c, hc, hmem⟩ := List.mem_flatMap.mp h
  have hlead : lead b.toNat = .single (Char.ofNat b.toNat) := by rw [lead, if_pos hb]
  rcases start_of_char c with ⟨b', hone, hb'⟩ | ⟨b', p, tail, hmany, hb', howes⟩
  · rw [hone, List.mem_singleton] at hmem
    subst hmem
    cases hlead.symm.trans hb'
    exact hc
  · rw [hmany] at hmem
    rcases List.mem_cons.mp hmem with rfl | hmem
    · exact nomatch hlead.symm.trans hb'
    · exact absurd hb (Nat.not_lt.mpr (high_of_owes howes (least_of_lead hb') b hmem))

end Conformance.Utf8
