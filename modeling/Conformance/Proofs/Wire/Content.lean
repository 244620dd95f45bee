/-
Conformance — what is left of a content.

The content of a response is read whole or not at all.  `Readable` says which
documents are read as an entry, and `carried?` which text such an entry
carries.  Neither knows of decoders.

`content_read` gives the content and the text of every response by its
entries: all of them where every entry is readable, nothing where one is not.
`content_of_bad_entry` is the second case, where an entry that is not readable
takes the text of the one before it along.
-/
import Conformance.Proofs.Wire.Acceptance

namespace Conformance

namespace Wire

namespace Content

/-! ## Entries -/

/-- A text or `null`, if it is there at all. -/
def MayBeText (o : Option Json) : Prop := ∀ v, o = some v → v = .null ∨ ∃ s, v = .str s

/-- The document is read as an entry: an object, whose other members do not matter, or a list of
its two fields. -/
inductive Readable : Json → Prop
  | object {ms : List (String × Json)} :
      MayBeText (ms.lookup "type") → MayBeText (ms.lookup "text") → Readable (.obj ms)
  | list {xs : List Json} :
      xs.length ≤ fields.length → MayBeText xs[0]? → MayBeText xs[1]? → Readable (.arr xs)

/-- The text of an object. -/
def ownText? (v : Json) : Option String := (v.get? "text").bind Json.asString?

/-- The text that a readable entry carries: its own, or the second item of a list. -/
def carried? : Json → Option String
  | .arr xs => xs[1]?.bind Json.asString?
  | v => ownText? v

theorem mayBeText_iff {j : Option Json} :
    MayBeText j ↔ ∃ o, Optionally (fun v s => v = .str s) j o := by
  constructor
  · intro h
    cases j with
    | none => exact ⟨none, .missing⟩
    | some v =>
        rcases h v rfl with rfl | ⟨s, rfl⟩
        · exact ⟨none, .null⟩
        · exact ⟨some s, .given Json.noConfusion rfl⟩
  · rintro ⟨o, h⟩ v rfl
    cases h with
    | null => exact .inl rfl
    | given _ hs => exact .inr ⟨_, hs⟩

theorem eq_of_optionally {j : Option Json} {o : Option String}
    (h : Optionally (fun v s => v = .str s) j o) : o = j.bind Json.asString? := by
  cases h with
  | missing | null => rfl
  | given _ hs => rw [hs]; rfl

/-- The readable documents are those that are decoded. -/
theorem readable_iff {v : Json} : Readable v ↔ ∃ c, Record fields Reads v c := by
  constructor
  · rintro (⟨hkind, htext⟩ | ⟨hlength, hkind, htext⟩)
    · obtain ⟨kind, hkind⟩ := mayBeText_iff.mp hkind
      obtain ⟨text, htext⟩ := mayBeText_iff.mp htext
      exact ⟨{ kind, text }, .object ⟨hkind, htext⟩⟩
    · obtain ⟨kind, hkind⟩ := mayBeText_iff.mp hkind
      obtain ⟨text, htext⟩ := mayBeText_iff.mp htext
      exact ⟨{ kind, text }, .list hlength ⟨hkind, htext⟩⟩
  · rintro ⟨c, ⟨h⟩ | ⟨hlength, h⟩⟩
    · exact .object (mayBeText_iff.mpr ⟨_, h.kind⟩) (mayBeText_iff.mpr ⟨_, h.text⟩)
    · exact .list hlength (mayBeText_iff.mpr ⟨_, h.kind⟩) (mayBeText_iff.mpr ⟨_, h.text⟩)

/-- An entry keeps the text that its document carries. -/
theorem text_of_record {v : Json} {c : Content} (h : Record fields Reads v c) :
    c.text = carried? v := by
  cases h with
  | object h => exact eq_of_optionally h.text
  | list _ h => exact eq_of_optionally h.text

theorem carried_of_object {v : Json} (h : v.isArray = false) : carried? v = ownText? v := by
  cases v with
  | arr => exact nomatch h
  | null | bool | num | str | obj => rfl

theorem texts_of_records {xs : List Json} {cs : List Content}
    (h : List.Forall₂ (Record fields Reads) xs cs) :
    cs.filterMap Content.text = xs.filterMap carried? := by
  induction h with
  | nil => rfl
  | cons hx _ ih => rw [List.filterMap_cons, List.filterMap_cons, text_of_record hx, ih]

theorem records_of_readable {xs : List Json} (h : ∀ x ∈ xs, Readable x) :
    ∃ cs, List.Forall₂ (Record fields Reads) xs cs := by
  induction xs with
  | nil => exact ⟨[], .nil⟩
  | cons x xs ih =>
      obtain ⟨c, hc⟩ := readable_iff.mp (h x (by simp))
      obtain ⟨cs, hcs⟩ := ih fun y hy => h y (by simp [hy])
      exact ⟨c :: cs, .cons hc hcs⟩

theorem readable_of_records {xs : List Json} {cs : List Content}
    (h : List.Forall₂ (Record fields Reads) xs cs) : ∀ x ∈ xs, Readable x := by
  induction h with
  | nil => simp
  | cons hx _ ih => exact List.forall_mem_cons.mpr ⟨readable_iff.mpr ⟨_, hx⟩, ih⟩

end Content

/-! ## The content of a response -/

namespace Response

variable {r : Response} {xs : List Json}

/-- Where the content is a list of readable entries, all of them are kept. -/
theorem content_of_readable (hc : r.resultMember "content" = some (.arr xs))
    (h : ∀ x ∈ xs, Content.Readable x) :
    List.Forall₂ (Record Content.fields Content.Reads) xs r.content := by
  obtain ⟨cs, hcs⟩ := Content.records_of_readable h
  have hdecode : sequence Content.decode (.arr xs) = .ok cs :=
    sequence_eq_ok_iff.mpr ⟨xs, rfl, hcs.imp fun _ _ => Content.decode_eq_ok_iff.mpr⟩
  simpa [content, hc, hdecode] using hcs

/-- Only a list of readable entries gives a content. -/
theorem content_eq_nil (h : ∀ xs, r.resultMember "content" = some (.arr xs) →
    ∃ x ∈ xs, ¬ Content.Readable x) : r.content = [] := by
  unfold content
  split
  · rfl
  · rename_i v hv
    split
    · rename_i cs hcs
      obtain ⟨xs, rfl, hall⟩ := sequence_eq_ok_iff.mp hcs
      obtain ⟨x, hx, hbad⟩ := h xs hv
      exact absurd (Content.readable_of_records
        (hall.imp fun _ _ => Content.decode_eq_ok_iff.mp) x hx) hbad
    · rfl

theorem text_of_nil (h : r.content = []) : r.text = "" := by
  rw [text, h]
  rfl

theorem content_eq_nil_iff : r.content = [] ↔
    ∀ xs, r.resultMember "content" = some (.arr xs) → xs = [] ∨ ∃ x ∈ xs, ¬ Content.Readable x := by
  constructor
  · intro h xs hxs
    by_contra! hne
    have hall := content_of_readable hxs hne.2
    rw [h, List.forall₂_nil_right_iff] at hall
    exact hne.1 hall
  · intro h
    by_cases hempty : r.resultMember "content" = some (.arr [])
    · rw [content, hempty]
      rfl
    · refine content_eq_nil fun xs hxs => (h xs hxs).resolve_left ?_
      rintro rfl
      exact hempty hxs

/-- The content is empty exactly where there is no list of entries, where the list is empty, and
where an entry is not readable.  Otherwise it has the entries one by one, and its text is the text
that they carry, in order; the entries that are objects carry their own. -/
theorem content_read (r : Response) :
    (r.content = [] ↔ ∀ xs, r.resultMember "content" = some (.arr xs) →
      xs = [] ∨ ∃ x ∈ xs, ¬ Content.Readable x) ∧
    (r.content = [] → r.text = "") ∧
    ∀ xs, r.resultMember "content" = some (.arr xs) → (∀ x ∈ xs, Content.Readable x) →
      List.Forall₂ (Record Content.fields Content.Reads) xs r.content ∧
      r.text = "\n".intercalate (xs.filterMap Content.carried?) ∧
      ((∀ x ∈ xs, x.isArray = false) →
        r.text = "\n".intercalate (xs.filterMap Content.ownText?)) := by
  refine ⟨content_eq_nil_iff, text_of_nil, fun xs hxs hread => ?_⟩
  have hall := content_of_readable hxs hread
  have htext : r.text = "\n".intercalate (xs.filterMap Content.carried?) := by
    rw [text, Content.texts_of_records hall]
  refine ⟨hall, htext, fun hobjects => ?_⟩
  rw [htext, List.filterMap_congr fun x hx => Content.carried_of_object (hobjects x hx)]

/-- An entry whose text is a number takes the text of the entry before it along. -/
theorem content_of_bad_entry :
    let good := Json.obj [("text", .str "a")]
    let bad := Json.obj [("text", .nat 5)]
    let r : Response := { id := 1, result := some (.obj [("content", .arr [good, bad])]) }
    r.content = [] ∧ r.text = "" ∧ [good, bad].filterMap Content.ownText? = ["a"] := by
  intro good bad r
  have hbad : ¬ Content.Readable (.obj [("text", .nat 5)]) := by
    rintro ⟨-, htext⟩
    obtain h | ⟨s, h⟩ := htext (.nat 5) rfl
    · exact nomatch h
    · exact nomatch h
  have hnil : r.content = [] := (content_read r).1.mpr fun xs hxs => by
    cases hxs
    exact .inr ⟨bad, by simp, hbad⟩
  exact ⟨hnil, (content_read r).2.1 hnil, rfl⟩

end Response

end Wire

end Conformance
