/-
Conformance — what an item says to the one who waits.

An item is silent or it decides, and which of the two is told here by its text
alone, one clause for each kind of item: `Silent` and `Decides`.  The judgement
that the wait runs finds exactly that (`judge_eq_none_iff`,
`judge_eq_some_iff`).  The order of the tests is in the clauses: a `method` is
looked for before a response is, and the id of a response is looked at before
its shape.

`responseOf` is the response that an item carries, whoever it is for.  Of all
verdicts only the one on a foreign id depends on more than the item and the id
awaited: `judge_of_foreign` is the one place where the mark of what was given
up is read.
-/
import Conformance.Client.Arrival
import Mathlib.Data.List.DropRight

namespace Conformance

/-! ## Blank text -/

/-- Nothing but blanks. -/
def IsBlankText (text : String) : Prop := ∀ c ∈ text.toList, Text.isBlank c = true

instance decIsBlankText (text : String) : Decidable (IsBlankText text) :=
  decidable_of_iff (text.toList.all Text.isBlank = true) List.all_eq_true

theorem trimChars_eq_nil_iff {cs : List Char} :
    Text.trimChars cs = [] ↔ ∀ c ∈ cs, Text.isBlank c = true := by
  rw [Text.trimChars, List.reverse_eq_nil_iff, List.dropWhile_eq_nil_iff]
  simp only [List.mem_reverse]
  constructor
  · intro h
    -- what the first pass leaves starts with no blank, so it is nothing
    have hnil : (cs.dropWhile Text.isBlank).dropWhile Text.isBlank = [] :=
      List.dropWhile_eq_nil_iff.mpr h
    rw [List.dropWhile_idempotent] at hnil
    exact List.dropWhile_eq_nil_iff.mp hnil
  · intro h c hc
    exact h c ((List.dropWhile_sublist _).subset hc)

theorem trim_isEmpty_iff {text : String} :
    (Text.trim text).isEmpty = true ↔ IsBlankText text := by
  rw [String.isEmpty_iff, Text.trim, IsBlankText, ← trimChars_eq_nil_iff]
  exact ⟨fun h => by simpa using congrArg String.toList h, fun h => by rw [h]⟩

theorem trim_isEmpty_of_not_blank {text : String} (h : ¬ IsBlankText text) :
    (Text.trim text).isEmpty = false :=
  Bool.eq_false_iff.mpr fun he => h (trim_isEmpty_iff.mp he)

/-! ## The two kinds of items -/

/-- The response that an item carries: its line is a document without `method`
that decodes. -/
def responseOf : Except ClientError Incoming → Option Wire.Response
  | .ok (.line text) =>
      match Json.parse (Text.trim text) with
      | .error _ => none
      | .ok v => if (v.get? "method").isSome then none else (Wire.Response.decode v).toOption
  | .ok .endOfStream => none
  | .error _ => none

/-- An item says nothing to request `id` when requests up to `abandoned` were
given up: a blank line, a message of the server's own, a late answer. -/
inductive Silent (id : Nat) (abandoned : Option Nat) : Except ClientError Incoming → Prop
  | blank {text : String} : IsBlankText text → Silent id abandoned (.ok (.line text))
  | message {text : String} {members : List (String × Json)} :
      Json.parse (Text.trim text) = .ok (.obj members) → (members.lookup "method").isSome →
      Silent id abandoned (.ok (.line text))
  | late {item : Except ClientError Incoming} {r : Wire.Response} {mark : Nat} :
      responseOf item = some r → r.id ≠ id → abandoned = some mark → r.id ≤ mark →
      Silent id abandoned item

/-- What an item decides for request `id`; `limit` is the length of the wait. -/
inductive Decides (id : Nat) (abandoned : Option Nat) (limit : Duration) :
    Except ClientError Incoming → Verdict → Prop
  | ended : Decides id abandoned limit (.ok .endOfStream) (.refuse .endOfStream)
  | failed {e : ClientError} : (∀ d, e ≠ .readTimeout d) →
      Decides id abandoned limit (.error e) (.refuse e)
  | gaveUp {d : Duration} :
      Decides id abandoned limit (.error (.readTimeout d)) (.refuse (.readTimeout limit))
  | noJson {text : String} {e : Json.ParseError} : ¬ IsBlankText text →
      Json.parse (Text.trim text) = .error e →
      Decides id abandoned limit (.ok (.line text))
        (.refuse (.malformed ("invalid JSON: " ++ e.message) (Text.trim text)))
  | noResponse {text : String} {v : Json} {e : Wire.ShapeError} :
      Json.parse (Text.trim text) = .ok v → v.get? "method" = none →
      Wire.Response.decode v = .error e →
      Decides id abandoned limit (.ok (.line text))
        (.refuse (.malformed ("not a JSON-RPC response: " ++ e.message) (Text.trim text)))
  | foreign {item : Except ClientError Incoming} {r : Wire.Response} :
      responseOf item = some r → r.id ≠ id → (∀ mark, abandoned = some mark → mark < r.id) →
      Decides id abandoned limit item (.refuse (.idMismatch id r.id))
  | misshapen {text : String} {r : Wire.Response} {m : Wire.Response.Misshape} :
      responseOf (.ok (.line text)) = some r → r.id = id → r.misshape = some m →
      Decides id abandoned limit (.ok (.line text))
        (.misshapen (.malformed m.text (Text.trim text)))
  | answer {item : Except ClientError Incoming} {r : Wire.Response} :
      responseOf item = some r → r.id = id → r.misshape = none →
      Decides id abandoned limit item (.answer r)

/-! ## Reading a document -/

theorem not_blank_of_parse {text : String} {v : Json}
    (h : Json.parse (Text.trim text) = .ok v) : ¬ IsBlankText text := by
  intro hb
  have hempty : Text.trim text = "" := String.isEmpty_iff.mp (trim_isEmpty_iff.mpr hb)
  rw [hempty] at h
  exact nomatch h

/-- The document of a line says which response it carries. -/
theorem responseOf_line {text : String} {r : Wire.Response} :
    responseOf (.ok (.line text)) = some r ↔
      ∃ v, Json.parse (Text.trim text) = .ok v ∧ v.get? "method" = none ∧
        Wire.Response.decode v = .ok r := by
  simp only [responseOf]
  cases hp : Json.parse (Text.trim text) with
  | error e => simp
  | ok v =>
      cases hm : v.get? "method" with
      | some m => simp [hm]
      | none =>
          cases hd : Wire.Response.decode v with
          | error e => simp [hm, hd, Except.toOption]
          | ok r' => simp [hm, hd, Except.toOption]

/-- Only lines carry responses. -/
theorem line_of_responseOf {item : Except ClientError Incoming} {r : Wire.Response}
    (h : responseOf item = some r) : ∃ text, item = .ok (.line text) := by
  rcases item with e | text | _
  · cases h
  · exact ⟨text, rfl⟩
  · cases h

section Judgement

variable {id : Nat} {abandoned : Option Nat} {limit : Duration}

theorem judge_of_blank {text : String} (h : IsBlankText text) :
    judge id abandoned limit (.ok (.line text)) = none := by
  simp only [judge, judgeLine, trim_isEmpty_iff.mpr h, if_true]

/-- A line is judged by its document. -/
theorem judge_of_document {text : String} {v : Json}
    (hp : Json.parse (Text.trim text) = .ok v) :
    judge id abandoned limit (.ok (.line text))
      = judgeDocument id abandoned (Text.trim text) v := by
  have hb : ¬ IsBlankText text := not_blank_of_parse hp
  simp only [judge, judgeLine, trim_isEmpty_of_not_blank hb, Bool.false_eq_true, if_false, hp]

/-- What a line that carries a response decides. -/
theorem judge_of_response {text : String} {r : Wire.Response}
    (h : responseOf (.ok (.line text)) = some r) :
    judge id abandoned limit (.ok (.line text)) =
      if r.id = id then
        match r.misshape with
        | none => some (.answer r)
        | some m => some (.misshapen (.malformed m.text (Text.trim text)))
      else if abandoned.any (r.id ≤ ·) then none
      else some (.refuse (.idMismatch id r.id)) := by
  obtain ⟨v, hp, hm, hd⟩ := responseOf_line.mp h
  rw [judge_of_document hp]
  by_cases hid : r.id = id
  · cases hs : r.misshape with
    | none => simp [judgeDocument, hm, hd, hid, hs]
    | some m => simp [judgeDocument, hm, hd, hid, hs]
  · simp [judgeDocument, hm, hd, hid]

/-- A response to another request is silent up to the mark, and a fault above it. -/
theorem judge_of_foreign {item : Except ClientError Incoming} {r : Wire.Response}
    (h : responseOf item = some r) (hid : r.id ≠ id) :
    judge id abandoned limit item =
      if abandoned.any (r.id ≤ ·) then none else some (.refuse (.idMismatch id r.id)) := by
  obtain ⟨text, rfl⟩ := line_of_responseOf h
  rw [judge_of_response h, if_neg hid]

/-- The own response, well-shaped, is the answer. -/
theorem judge_of_own {item : Except ClientError Incoming} {r : Wire.Response}
    (h : responseOf item = some r) (hid : r.id = id) (hs : r.misshape = none) :
    judge id abandoned limit item = some (.answer r) := by
  obtain ⟨text, rfl⟩ := line_of_responseOf h
  rw [judge_of_response h, if_pos hid, hs]

theorem judge_of_silent {item : Except ClientError Incoming} (h : Silent id abandoned item) :
    judge id abandoned limit item = none := by
  cases h with
  | blank hb => exact judge_of_blank hb
  | @message text members hp hm =>
      rw [judge_of_document hp]
      simp only [judgeDocument, Json.get?, hm, if_true]
  | @late item r mark hr hid ha hle =>
      rw [judge_of_foreign hr hid, ha, Option.any_some, decide_eq_true hle, if_pos rfl]

theorem judge_of_decides {item : Except ClientError Incoming} {v : Verdict}
    (h : Decides id abandoned limit item v) : judge id abandoned limit item = some v := by
  cases h with
  | ended => rfl
  | @failed e he =>
      cases e with
      | readTimeout d => exact absurd rfl (he d)
      | _ => rfl
  | gaveUp => rfl
  | noJson hb hp =>
      simp only [judge, judgeLine, trim_isEmpty_of_not_blank hb, Bool.false_eq_true, if_false, hp]
  | @noResponse text v e hp hm hd =>
      rw [judge_of_document hp]
      simp only [judgeDocument, hm, hd, Option.isSome_none, Bool.false_eq_true, if_false]
  | @foreign item r hr hid ha =>
      rw [judge_of_foreign hr hid]
      cases abandoned with
      | none => rfl
      | some mark => simp [Nat.not_le.mpr (ha mark rfl)]
  | @misshapen text r m hr hid hm => rw [judge_of_response hr, if_pos hid, hm]
  | answer hr hid hs => exact judge_of_own hr hid hs

/-- Every item is silent or decides. -/
theorem silent_or_decides (id : Nat) (abandoned : Option Nat) (limit : Duration)
    (item : Except ClientError Incoming) :
    Silent id abandoned item ∨ ∃ v, Decides id abandoned limit item v := by
  match item with
  | .error (.readTimeout d) => exact Or.inr ⟨_, .gaveUp⟩
  | .error (.processSpawn _ _) | .error (.transportClosed _) | .error .endOfStream
  | .error (.malformed _ _) | .error (.handshake _) | .error (.rpc _) | .error .notOpen
  | .error .busy | .error (.idMismatch _ _) | .error (.serialize _) | .error (.io _) =>
      exact Or.inr ⟨_, .failed fun _ => nofun⟩
  | .ok .endOfStream => exact Or.inr ⟨_, .ended⟩
  | .ok (.line text) =>
      by_cases hb : IsBlankText text
      · exact Or.inl (.blank hb)
      · cases hp : Json.parse (Text.trim text) with
        | error e => exact Or.inr ⟨_, .noJson hb hp⟩
        | ok v =>
            cases hm : v.get? "method" with
            | some m =>
                cases v with
                | obj members =>
                    have hm' : members.lookup "method" = some m := hm
                    exact Or.inl (.message hp (by rw [hm']; rfl))
                | _ => exact nomatch hm
            | none =>
                cases hd : Wire.Response.decode v with
                | error e => exact Or.inr ⟨_, .noResponse hp hm hd⟩
                | ok r =>
                    have hr : responseOf (.ok (.line text)) = some r :=
                      responseOf_line.mpr ⟨v, hp, hm, hd⟩
                    by_cases hid : r.id = id
                    · cases hs : r.misshape with
                      | none => exact Or.inr ⟨_, .answer hr hid hs⟩
                      | some m => exact Or.inr ⟨_, .misshapen hr hid hs⟩
                    · cases ha : abandoned with
                      | none => exact Or.inr ⟨_, .foreign hr hid (by simp)⟩
                      | some mark =>
                          by_cases hle : r.id ≤ mark
                          · exact Or.inl (.late hr hid rfl hle)
                          · refine Or.inr ⟨_, .foreign hr hid ?_⟩
                            intro mark' h'
                            cases h'
                            exact Nat.not_le.mp hle

/-- What is silent is not the own response. -/
theorem not_own_of_silent {item : Except ClientError Incoming} (h : Silent id abandoned item)
    {r : Wire.Response} (hr : responseOf item = some r) : r.id ≠ id := by
  intro hid
  obtain ⟨text, rfl⟩ := line_of_responseOf hr
  have hnone : judge id abandoned 0 (.ok (.line text)) = none := judge_of_silent h
  rw [judge_of_response hr, if_pos hid] at hnone
  cases hm : r.misshape <;> simp [hm] at hnone

/-- What is refused is not the own response. -/
theorem not_own_of_refuse {item : Except ClientError Incoming} {e : ClientError}
    (h : Decides id abandoned limit item (.refuse e)) {r : Wire.Response}
    (hr : responseOf item = some r) : r.id ≠ id := by
  intro hid
  obtain ⟨text, rfl⟩ := line_of_responseOf hr
  have hrefuse : judge id abandoned limit (.ok (.line text)) = some (.refuse e) :=
    judge_of_decides h
  rw [judge_of_response hr, if_pos hid] at hrefuse
  cases hm : r.misshape <;> simp [hm] at hrefuse

theorem judge_eq_none_iff {item : Except ClientError Incoming} :
    judge id abandoned limit item = none ↔ Silent id abandoned item := by
  constructor
  · intro h
    rcases silent_or_decides id abandoned limit item with hs | ⟨v, hv⟩
    · exact hs
    · rw [judge_of_decides hv] at h
      exact nomatch h
  · exact judge_of_silent

theorem judge_eq_some_iff {item : Except ClientError Incoming} {v : Verdict} :
    judge id abandoned limit item = some v ↔ Decides id abandoned limit item v := by
  constructor
  · intro h
    rcases silent_or_decides id abandoned limit item with hs | ⟨w, hw⟩
    · rw [judge_of_silent hs] at h
      exact nomatch h
    · rw [judge_of_decides hw] at h
      cases h
      exact hw
  · exact judge_of_decides

end Judgement

end Conformance
