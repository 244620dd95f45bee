/-
Conformance — a response on its line.

A server writes a response with sorted members on one line.  Who reads the line finds the response
(`responseOf_line`), its result with sorted members: nothing is at its ends to be cut off, and the
text is that of the document.  That needs a result without doubles that does not nest too deep, and
an error that carries no data.
-/
import Conformance.Proofs.Wait.Judgement
import Conformance.Proofs.Wire.Codec

namespace Conformance

/-! ## Objects on a line -/

theorem trimChars_of_ends {cs : List Char} {c d : Char} (hc : Text.isBlank c = false)
    (hd : Text.isBlank d = false) : Text.trimChars (c :: (cs ++ [d])) = c :: (cs ++ [d]) := by
  simp [Text.trimChars, hc, hd]

/-- The text of an object has no blanks at its ends. -/
theorem trim_print_obj (ms : List (String × Json)) :
    Text.trim (Json.print (.obj ms)) = Json.print (.obj ms) := by
  rw [Json.print, Json.text, Text.trim, String.toList_ofList,
    trimChars_of_ends (by decide) (by decide)]

theorem trim_printSorted_obj (ms : List (String × Json)) :
    Text.trim (Json.printSorted (.obj ms)) = Json.printSorted (.obj ms) := by
  rw [Json.printSorted, Json.canonical, trim_print_obj]

/-- The line of an object, read. -/
theorem parse_line_obj {ms : List (String × Json)} (hv : (Json.obj ms).integral = true)
    (hd : (Json.obj ms).depth ≤ Json.nestingLimit) :
    Json.parse (Text.trim (Json.printSorted (.obj ms))) = .ok (Json.obj ms).canonical := by
  rw [trim_printSorted_obj, Json.parse_printSorted hv hd]

namespace Wire.Response

/-- The response has a faithful line. -/
structure Plain (r : Response) : Prop where
  id : IsWord r.id
  result : ∀ v, r.result = some v → v.integral = true ∧ v.depth < Json.nestingLimit
  error : ∀ e, r.error = some e → IsSignedWord e.code ∧ e.data = none

/-- The response with the members of its result sorted. -/
def canonical (r : Response) : Response := { r with result := r.result.map Json.canonical }

@[simp]
theorem id_canonical (r : Response) : r.canonical.id = r.id := rfl

@[simp]
theorem misshape_canonical (r : Response) : r.canonical.misshape = r.misshape := by
  obtain ⟨jsonrpc, id, result, error⟩ := r
  cases result <;> cases error <;> rfl

variable {r : Response}

theorem nullable_error {e : RpcError} (h : IsSignedWord e.code ∧ e.data = none) :
    nullable RpcError.decode e.toJson.canonical = .ok (some e) := by
  obtain ⟨code, message, data⟩ := e
  obtain ⟨hcode, rfl⟩ := h
  exact RpcError.nullable_document ⟨hcode, nofun⟩

theorem decode_canonical (h : r.Plain) : decode r.toJson.canonical = .ok r.canonical := by
  have hid := h.id
  have herror := h.error
  obtain ⟨jsonrpc, id, result, error⟩ := r
  cases result with
  | none =>
      cases error with
      | none =>
          simp [toJson, decode, record, Json.canonical, canonical, member, Json.lookup_canonical,
            List.lookup_cons, Json.member?, word_nat hid]
      | some e =>
          simp [toJson, decode, record, Json.canonical, canonical, member, Json.lookup_canonical,
            List.lookup_cons, Json.member?, word_nat hid, nullable_error (herror e rfl)]
  | some v =>
      cases error with
      | none =>
          simp [toJson, decode, record, Json.canonical, canonical, member, Json.lookup_canonical,
            List.lookup_cons, Json.member?, word_nat hid]
      | some e =>
          simp [toJson, decode, record, Json.canonical, canonical, member, Json.lookup_canonical,
            List.lookup_cons, Json.member?, word_nat hid, nullable_error (herror e rfl)]

theorem integral_toJson (h : r.Plain) : r.toJson.integral = true := by
  have hid : Json.Number.isWord (.int r.id) = true := by
    have hword := h.id
    simp only [IsWord] at hword
    simp only [Json.Number.isWord, decide_eq_true_eq]
    omega
  have herror : ∀ e, r.error = some e → e.toJson.integral = true := by
    intro e he
    obtain ⟨⟨hlow, hhigh⟩, hdata⟩ := h.error e he
    have hcode : Json.Number.isWord (.int e.code) = true := by
      have hbound : Word.signedBound ≤ Word.bound := by decide
      simp only [Json.Number.isWord, decide_eq_true_eq]
      omega
    simp [RpcError.toJson, Json.integral, Json.integralMembers, Json.int, hdata, hcode,
      Json.member?]
  have hresult := h.result
  obtain ⟨jsonrpc, id, result, error⟩ := r
  cases result <;> cases error <;>
    simp_all [toJson, Json.integral, Json.integralMembers, Json.nat, Json.member?]

theorem depth_toJson (h : r.Plain) : r.toJson.depth ≤ Json.nestingLimit := by
  have herror : ∀ e, r.error = some e → e.toJson.depth = 1 := by
    intro e he
    simp [RpcError.toJson, Json.depth, Json.depthMembers, Json.int, (h.error e he).2,
      Json.member?]
  have hresult : ∀ v, r.result = some v → v.depth + 1 ≤ Json.nestingLimit := fun v hv =>
    (h.result v hv).2
  obtain ⟨jsonrpc, id, result, error⟩ := r
  cases result <;> cases error <;>
    simp_all [toJson, Json.depth, Json.depthMembers, Json.nat, Json.member?, Json.nestingLimit]

/-- A response is read from its line. -/
theorem responseOf_line (h : r.Plain) :
    responseOf (.ok (.line r.toJson.printSorted)) = some r.canonical := by
  have hparse : Json.parse (Text.trim r.toJson.printSorted) = .ok r.toJson.canonical :=
    parse_line_obj (integral_toJson h) (depth_toJson h)
  refine Conformance.responseOf_line.mpr ⟨_, hparse, ?_, decode_canonical h⟩
  obtain ⟨jsonrpc, id, result, error⟩ := r
  cases result <;> cases error <;>
    simp [toJson, Json.canonical, Json.get?, Json.lookup_canonical, List.lookup_cons, Json.member?]

end Wire.Response

end Conformance
