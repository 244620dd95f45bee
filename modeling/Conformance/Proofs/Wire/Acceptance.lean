/-
Conformance — what decoders accept.

A record is read from fields.  An object has them by name; a list has them in
the order of the record, and no more of them.  `Record` says so once for all
records, and what is left to say of one record is which fields make which value
(`RpcError.Reads`, `Response.Reads`, `Content.Reads`, `Tool.Reads`).  Nothing of the order in
which a decoder looks at the fields is in that: the order only decides which
fault is reported.

The main statements are the four `decode_eq_ok_iff`: a decoder gives a record
exactly when the document has its fields, be it an object or a list.
-/
import Mathlib.Data.List.Forall2
import Conformance.Proofs.Wire.Decoding

namespace Conformance

namespace Wire

section Fields

variable {α β : Type}

/-! ## Where the fields are -/

/-- A document has the fields of a record, by name or in order; `P` says which fields make which
value. -/
inductive Record (names : List String) (P : (String → Option Json) → α → Prop) : Json → α → Prop
  | object {ms : List (String × Json)} {a : α} : P (fun n => ms.lookup n) a →
      Record names P (.obj ms) a
  | list {xs : List Json} {a : α} : xs.length ≤ names.length →
      P (fun n => xs[names.idxOf n]?) a → Record names P (.arr xs) a

/-- A text, or nothing where the default stands for it. -/
inductive TextOr (default : String) : Option Json → String → Prop
  | missing : TextOr default none default
  | given {s : String} : TextOr default (some (.str s)) s

/-- A value that may be missing, and that `null` does not give. -/
inductive Optionally (P : Json → α → Prop) : Option Json → Option α → Prop
  | missing : Optionally P none none
  | null : Optionally P (some .null) none
  | given {v : Json} {a : α} : v ≠ .null → P v a → Optionally P (some v) (some a)

@[simp]
theorem optionally_none_iff {P : Json → α → Prop} {j : Option Json} :
    Optionally P j none ↔ j = none ∨ j = some .null := by
  constructor
  · rintro (_ | _)
    · exact .inl rfl
    · exact .inr rfl
  · rintro (rfl | rfl)
    · exact .missing
    · exact .null

/-- What a decoder makes of a field that may be missing. -/
def field (d : Decoder α) : Option Json → Decoded (Option α)
  | some v => (d v).map some
  | none => .ok none

variable {d : Decoder α} {j : Option Json} {o : Option α} {a : α}

theorem bind_eq_ok_iff {x : Decoded α} {f : α → Decoded β} {b : β} :
    x >>= f = .ok b ↔ ∃ a, x = .ok a ∧ f a = .ok b :=
  ⟨ok_of_bind, fun ⟨_, hx, hf⟩ => by rw [hx]; exact hf⟩

theorem map_some_eq_ok_iff {x : Decoded α} :
    x.map some = .ok o ↔ ∃ a, x = .ok a ∧ o = some a := by
  cases x <;> simp [Except.map, eq_comm]

theorem member_eq (ms : List (String × Json)) (key : String) (d : Decoder α) :
    member ms key d = field d (ms.lookup key) := rfl

theorem item_eq (xs : List Json) (i : Nat) (d : Decoder α) : item xs i d = field d xs[i]? := rfl

theorem field_eq_ok_some_iff : field d j = .ok (some a) ↔ ∃ v, j = some v ∧ d v = .ok a := by
  cases j <;> simp [field, map_some_eq_ok_iff]

theorem requiredItem_eq_ok_iff {name : String} {n i : Nat} {xs : List Json} :
    requiredItem name n xs i d = .ok a ↔ field d xs[i]? = .ok (some a) := by
  rw [requiredItem, field_eq_ok_some_iff]
  cases xs[i]? <;> simp

theorem required_eq_ok_iff {name : String} : required name o = .ok a ↔ o = some a := by
  cases o <;> simp [required]

theorem noMoreThan_eq_ok_iff {n : Nat} {xs : List Json} {u : Unit} :
    noMoreThan n xs = .ok u ↔ xs.length ≤ n := by
  rw [noMoreThan]
  split <;> simp [*]

/-! ## What the fields give -/

theorem string_eq_ok_iff {v : Json} {s : String} : string v = .ok s ↔ v = .str s := by
  cases v <;> simp [string]

theorem integer_eq_ok_iff {lo hi i : Int} {name : String} {v : Json} :
    integer lo hi name v = .ok i ↔ v = .int i ∧ lo ≤ i ∧ i ≤ hi := by
  constructor
  · intro h
    have hrange := range_of_integer h
    unfold integer at h
    split at h
    · split at h
      · cases h
        exact ⟨rfl, hrange⟩
      · exact nomatch h
    · exact nomatch h
  · rintro ⟨rfl, hrange⟩
    simp [integer, Json.int, hrange]

theorem word_eq_ok_iff {v : Json} {n : Nat} : word v = .ok n ↔ v = .nat n ∧ IsWord n := by
  constructor
  · intro h
    obtain ⟨i, hi, rfl⟩ := ok_of_map h
    obtain ⟨rfl, hlow, hhigh⟩ := integer_eq_ok_iff.mp hi
    refine ⟨?_, ?_⟩
    · rw [Json.int, Json.nat, Int.toNat_of_nonneg hlow]
    · rw [IsWord]
      omega
  · rintro ⟨rfl, hn⟩
    exact word_nat hn

theorem signedWord_eq_ok_iff {v : Json} {i : Int} :
    signedWord v = .ok i ↔ v = .int i ∧ IsSignedWord i := by
  rw [signedWord, integer_eq_ok_iff, IsSignedWord, Int.le_sub_one_iff]

@[simp]
theorem field_value (j : Option Json) : field value j = .ok j := by
  cases j <;> rfl

theorem field_word_iff {n : Nat} :
    field word j = .ok (some n) ↔ j = some (.nat n) ∧ IsWord n := by
  simp [field_eq_ok_some_iff, word_eq_ok_iff]

theorem field_signedWord_iff {i : Int} :
    field signedWord j = .ok (some i) ↔ j = some (.int i) ∧ IsSignedWord i := by
  simp [field_eq_ok_some_iff, signedWord_eq_ok_iff]

theorem field_string_iff {default s : String} :
    (∃ o, field string j = .ok o ∧ o.getD default = s) ↔ TextOr default j s := by
  constructor
  · rintro ⟨o, ho, rfl⟩
    cases j with
    | none =>
        cases ho
        exact .missing
    | some v =>
        obtain ⟨t, ht, rfl⟩ := map_some_eq_ok_iff.mp ho
        cases string_eq_ok_iff.mp ht
        exact .given
  · rintro (_ | _)
    · exact ⟨none, rfl, rfl⟩
    · exact ⟨some s, rfl, rfl⟩

theorem field_nullable_iff :
    (∃ x, field (nullable d) j = .ok x ∧ x.join = o) ↔
      Optionally (fun v a => d v = .ok a) j o := by
  constructor
  · rintro ⟨x, hx, rfl⟩
    cases j with
    | none =>
        cases hx
        exact .missing
    | some v =>
        obtain ⟨y, hy, rfl⟩ := map_some_eq_ok_iff.mp hx
        by_cases hv : v = .null
        · subst hv
          cases hy
          exact .null
        · rw [nullable_of_ne hv] at hy
          obtain ⟨a, ha, rfl⟩ := map_some_eq_ok_iff.mp hy
          exact .given hv ha
  · intro h
    cases h with
    | missing => exact ⟨none, rfl, rfl⟩
    | null => exact ⟨some none, rfl, rfl⟩
    | given hv ha => exact ⟨some (some _), by simp [field, nullable_of_ne hv, ha], rfl⟩

theorem field_nullable_string_iff {o : Option String} :
    (∃ x, field (nullable string) j = .ok x ∧ x.join = o) ↔
      Optionally (fun v s => v = .str s) j o := by
  simp only [field_nullable_iff, string_eq_ok_iff]

theorem field_nullable_value_iff {o : Option Json} :
    (∃ x, field (nullable value) j = .ok x ∧ x.join = o) ↔ Optionally (fun v u => v = u) j o := by
  simp only [field_nullable_iff, value_eq, Except.ok.injEq]

/-- A record accepts what its two forms accept. -/
theorem record_eq_ok_iff {name : String} {names : List String}
    {P : (String → Option Json) → α → Prop} {ofMembers : List (String × Json) → Decoded α}
    {ofItems : List Json → Decoded α} {v : Json}
    (hms : ∀ ms, ofMembers ms = .ok a ↔ P (fun n => ms.lookup n) a)
    (hxs : ∀ xs, ofItems xs = .ok a ↔
      xs.length ≤ names.length ∧ P (fun n => xs[names.idxOf n]?) a) :
    record name ofMembers ofItems v = .ok a ↔ Record names P v a := by
  constructor
  · intro h
    cases v with
    | obj ms => exact .object ((hms ms).mp h)
    | arr xs => exact .list ((hxs xs).mp h).1 ((hxs xs).mp h).2
    | null | bool | num | str => exact nomatch h
  · intro h
    cases h with
    | object hP => exact (hms _).mpr hP
    | list hlength hP => exact (hxs _).mpr ⟨hlength, hP⟩

/-- A list is decoded item by item, and as a whole or not at all. -/
theorem items_eq_ok_iff {xs : List Json} {as : List α} :
    items d xs = .ok as ↔ List.Forall₂ (fun x a => d x = .ok a) xs as := by
  induction xs generalizing as with
  | nil =>
      rw [List.forall₂_nil_left_iff]
      exact ⟨fun h => (Except.ok.inj h).symm, fun h => h ▸ rfl⟩
  | cons x xs ih =>
      simp only [items, bind_eq_ok_iff, List.forall₂_cons_left_iff, ih]
      constructor
      · rintro ⟨a, ha, rest, hrest, h⟩
        exact ⟨a, rest, ha, hrest, (Except.ok.inj h).symm⟩
      · rintro ⟨a, rest, ha, hrest, rfl⟩
        exact ⟨a, ha, rest, hrest, rfl⟩

theorem sequence_eq_ok_iff {v : Json} {as : List α} :
    sequence d v = .ok as ↔ ∃ xs, v = .arr xs ∧ List.Forall₂ (fun x a => d x = .ok a) xs as := by
  cases v <;> simp [sequence, items_eq_ok_iff]

end Fields

/-! ## The records -/

namespace RpcError

def fields : List String := ["code", "message", "data"]

/-- The fields make the error object `e`. -/
structure Reads (at? : String → Option Json) (e : RpcError) : Prop where
  code : at? "code" = some (.int e.code)
  signed : IsSignedWord e.code
  message : TextOr "" (at? "message") e.message
  data : Optionally (fun v d => v = d) (at? "data") e.data

theorem reads_iff {at? : String → Option Json} {e : RpcError} :
    Reads at? e ↔ ∃ data message, field signedWord (at? "code") = .ok (some e.code) ∧
      field (nullable value) (at? "data") = .ok data ∧ data.join = e.data ∧
      field string (at? "message") = .ok message ∧ message.getD "" = e.message := by
  constructor
  · rintro ⟨hcode, hsigned, hmessage, hdata⟩
    obtain ⟨data, hdata, hjoin⟩ := field_nullable_value_iff.mpr hdata
    obtain ⟨message, hmessage, hget⟩ := field_string_iff.mpr hmessage
    exact ⟨data, message, field_signedWord_iff.mpr ⟨hcode, hsigned⟩, hdata, hjoin, hmessage, hget⟩
  · rintro ⟨data, message, hcode, hdata, hjoin, hmessage, hget⟩
    obtain ⟨hcode, hsigned⟩ := field_signedWord_iff.mp hcode
    exact ⟨hcode, hsigned, field_string_iff.mp ⟨message, hmessage, hget⟩,
      field_nullable_value_iff.mp ⟨data, hdata, hjoin⟩⟩

theorem decode_eq_ok_iff {v : Json} {e : RpcError} :
    decode v = .ok e ↔ Record fields Reads v e := by
  refine record_eq_ok_iff (fun ms => ?_) (fun xs => ?_)
  · simp only [bind_eq_ok_iff, member_eq, required_eq_ok_iff, reads_iff]
    constructor
    · rintro ⟨_, hcode, data, hdata, message, hmessage, code, rfl, h⟩
      cases h
      exact ⟨data, message, hcode, hdata, rfl, hmessage, rfl⟩
    · rintro ⟨data, message, hcode, hdata, hjoin, hmessage, hget⟩
      exact ⟨_, hcode, data, hdata, message, hmessage, _, rfl, by rw [hjoin, hget]; rfl⟩
  · simp only [bind_eq_ok_iff, item_eq, requiredItem_eq_ok_iff, noMoreThan_eq_ok_iff, reads_iff]
    constructor
    · rintro ⟨code, hcode, message, hmessage, data, hdata, _, hlength, h⟩
      cases h
      exact ⟨hlength, data, message, hcode, hdata, rfl, hmessage, rfl⟩
    · rintro ⟨hlength, data, message, hcode, hdata, hjoin, hmessage, hget⟩
      exact ⟨_, hcode, message, hmessage, data, hdata, (), hlength, by rw [hjoin, hget]; rfl⟩

end RpcError

namespace Response

def fields : List String := ["jsonrpc", "id", "result", "error"]

/-- The fields make the response `r`.  A `result` of `null` is a result. -/
structure Reads (at? : String → Option Json) (r : Response) : Prop where
  jsonrpc : TextOr rpcVersion (at? "jsonrpc") r.jsonrpc
  id : at? "id" = some (.nat r.id)
  word : IsWord r.id
  result : at? "result" = r.result
  error : Optionally (Record RpcError.fields RpcError.Reads) (at? "error") r.error

theorem reads_iff {at? : String → Option Json} {r : Response} :
    Reads at? r ↔ ∃ jsonrpc error, field string (at? "jsonrpc") = .ok jsonrpc ∧
      jsonrpc.getD rpcVersion = r.jsonrpc ∧ field word (at? "id") = .ok (some r.id) ∧
      field value (at? "result") = .ok r.result ∧
      field (nullable RpcError.decode) (at? "error") = .ok error ∧ error.join = r.error := by
  have herror_iff : ∀ {j o}, (∃ x, field (nullable RpcError.decode) j = .ok x ∧ x.join = o) ↔
      Optionally (Record RpcError.fields RpcError.Reads) j o := by
    simp only [field_nullable_iff, RpcError.decode_eq_ok_iff, implies_true]
  constructor
  · rintro ⟨hjsonrpc, hid, hword, hresult, herror⟩
    obtain ⟨jsonrpc, hjsonrpc, hget⟩ := field_string_iff.mpr hjsonrpc
    obtain ⟨error, herror, hjoin⟩ := herror_iff.mpr herror
    exact ⟨jsonrpc, error, hjsonrpc, hget, field_word_iff.mpr ⟨hid, hword⟩,
      by rw [field_value, hresult], herror, hjoin⟩
  · rintro ⟨jsonrpc, error, hjsonrpc, hget, hid, hresult, herror, hjoin⟩
    obtain ⟨hid, hword⟩ := field_word_iff.mp hid
    exact ⟨field_string_iff.mp ⟨jsonrpc, hjsonrpc, hget⟩, hid, hword,
      by rwa [field_value, Except.ok.injEq] at hresult, herror_iff.mp ⟨error, herror, hjoin⟩⟩

theorem decode_eq_ok_iff {v : Json} {r : Response} :
    decode v = .ok r ↔ Record fields Reads v r := by
  refine record_eq_ok_iff (fun ms => ?_) (fun xs => ?_)
  · simp only [bind_eq_ok_iff, member_eq, required_eq_ok_iff, reads_iff]
    constructor
    · rintro ⟨error, herror, _, hid, jsonrpc, hjsonrpc, result, hresult, id, rfl, h⟩
      cases h
      exact ⟨jsonrpc, error, hjsonrpc, rfl, hid, hresult, herror, rfl⟩
    · rintro ⟨jsonrpc, error, hjsonrpc, hget, hid, hresult, herror, hjoin⟩
      exact ⟨error, herror, _, hid, jsonrpc, hjsonrpc, _, hresult, _, rfl,
        by rw [hget, hjoin]; rfl⟩
  · simp only [bind_eq_ok_iff, item_eq, requiredItem_eq_ok_iff, noMoreThan_eq_ok_iff, reads_iff]
    constructor
    · rintro ⟨jsonrpc, hjsonrpc, id, hid, result, hresult, error, herror, _, hlength, h⟩
      cases h
      exact ⟨hlength, jsonrpc, error, hjsonrpc, rfl, hid, hresult, herror, rfl⟩
    · rintro ⟨hlength, jsonrpc, error, hjsonrpc, hget, hid, hresult, herror, hjoin⟩
      exact ⟨jsonrpc, hjsonrpc, _, hid, _, hresult, error, herror, (), hlength,
        by rw [hget, hjoin]; rfl⟩

end Response

namespace Content

def fields : List String := ["type", "text"]

/-- The fields make the entry `c`. -/
structure Reads (at? : String → Option Json) (c : Content) : Prop where
  kind : Optionally (fun v s => v = .str s) (at? "type") c.kind
  text : Optionally (fun v s => v = .str s) (at? "text") c.text

theorem reads_iff {at? : String → Option Json} {c : Content} :
    Reads at? c ↔ ∃ kind text, field (nullable string) (at? "type") = .ok kind ∧
      kind.join = c.kind ∧ field (nullable string) (at? "text") = .ok text ∧
      text.join = c.text := by
  constructor
  · rintro ⟨hkind, htext⟩
    obtain ⟨kind, hkind, hk⟩ := field_nullable_string_iff.mpr hkind
    obtain ⟨text, htext, ht⟩ := field_nullable_string_iff.mpr htext
    exact ⟨kind, text, hkind, hk, htext, ht⟩
  · rintro ⟨kind, text, hkind, hk, htext, ht⟩
    exact ⟨field_nullable_string_iff.mp ⟨kind, hkind, hk⟩,
      field_nullable_string_iff.mp ⟨text, htext, ht⟩⟩

theorem decode_eq_ok_iff {v : Json} {c : Content} :
    decode v = .ok c ↔ Record fields Reads v c := by
  refine record_eq_ok_iff (fun ms => ?_) (fun xs => ?_)
  · simp only [bind_eq_ok_iff, member_eq, reads_iff]
    constructor
    · rintro ⟨text, htext, kind, hkind, h⟩
      cases h
      exact ⟨kind, text, hkind, rfl, htext, rfl⟩
    · rintro ⟨kind, text, hkind, hk, htext, ht⟩
      exact ⟨text, htext, kind, hkind, by rw [hk, ht]; rfl⟩
  · simp only [bind_eq_ok_iff, item_eq, noMoreThan_eq_ok_iff, reads_iff]
    constructor
    · rintro ⟨kind, hkind, text, htext, _, hlength, h⟩
      cases h
      exact ⟨hlength, kind, text, hkind, rfl, htext, rfl⟩
    · rintro ⟨hlength, kind, text, hkind, hk, htext, ht⟩
      exact ⟨kind, hkind, text, htext, (), hlength, by rw [hk, ht]; rfl⟩

end Content

namespace Tool

def fields : List String := ["name", "description", "inputSchema"]

/-- The fields make the tool `t`.  Its schema may be anything. -/
structure Reads (at? : String → Option Json) (t : Tool) : Prop where
  name : at? "name" = some (.str t.name)
  description : TextOr "" (at? "description") t.description
  inputSchema : (at? "inputSchema").getD .null = t.inputSchema

theorem reads_iff {at? : String → Option Json} {t : Tool} :
    Reads at? t ↔ ∃ description inputSchema, field string (at? "name") = .ok (some t.name) ∧
      field string (at? "description") = .ok description ∧ description.getD "" = t.description ∧
      field value (at? "inputSchema") = .ok inputSchema ∧
      inputSchema.getD .null = t.inputSchema := by
  constructor
  · rintro ⟨hname, hdescription, hschema⟩
    obtain ⟨description, hdescription, hget⟩ := field_string_iff.mpr hdescription
    exact ⟨description, _, field_eq_ok_some_iff.mpr ⟨_, hname, rfl⟩, hdescription, hget,
      field_value _, hschema⟩
  · rintro ⟨description, inputSchema, hname, hdescription, hget, hschema, hnull⟩
    obtain ⟨v, hv, hstring⟩ := field_eq_ok_some_iff.mp hname
    cases string_eq_ok_iff.mp hstring
    rw [field_value, Except.ok.injEq] at hschema
    exact ⟨hv, field_string_iff.mp ⟨description, hdescription, hget⟩, hschema ▸ hnull⟩

theorem decode_eq_ok_iff {v : Json} {t : Tool} :
    decode v = .ok t ↔ Record fields Reads v t := by
  refine record_eq_ok_iff (fun ms => ?_) (fun xs => ?_)
  · simp only [bind_eq_ok_iff, member_eq, required_eq_ok_iff, reads_iff]
    constructor
    · rintro ⟨description, hdescription, inputSchema, hschema, _, hname, name, rfl, h⟩
      cases h
      exact ⟨description, inputSchema, hname, hdescription, rfl, hschema, rfl⟩
    · rintro ⟨description, inputSchema, hname, hdescription, hget, hschema, hnull⟩
      exact ⟨description, hdescription, inputSchema, hschema, _, hname, _, rfl,
        by rw [hget, hnull]; rfl⟩
  · simp only [bind_eq_ok_iff, item_eq, requiredItem_eq_ok_iff, noMoreThan_eq_ok_iff, reads_iff]
    constructor
    · rintro ⟨name, hname, description, hdescription, inputSchema, hschema, _, hlength, h⟩
      cases h
      exact ⟨hlength, description, inputSchema, hname, hdescription, rfl, hschema, rfl⟩
    · rintro ⟨hlength, description, inputSchema, hname, hdescription, hget, hschema, hnull⟩
      exact ⟨_, hname, description, hdescription, inputSchema, hschema, (), hlength,
        by rw [hget, hnull]; rfl⟩

end Tool

end Wire

end Conformance
