/-
Conformance — what is decoded is what was written.

Every record of the protocol has a document and a decoder (`Codec`).  Two facts make the two
fit (`Codec.Faithful`): the document of a record decodes to that record, but for a `null` where
nothing is meant by it; and what decodes at all is a record in which no such `null` is left.
Together they say that a document that was decoded once is as good as its record
(`Codec.Faithful.decode_again`).

Of the nine records all but one leave out a field that is empty, and read a `null` there as
nothing.  The `result` of a response is the exception: a `null` in it is a result.
-/
import Conformance.Proofs.Wire.Decoding

namespace Conformance

namespace Wire

/-! ## Records and their documents -/

/-- A record: its document and its decoder, which of its values there are, and what is left
of a value where a `null` means nothing. -/
structure Codec (α : Type) where
  toJson : α → Json
  decode : Decoder α
  /-- Ids are words, and documents are sorted. -/
  Sound : α → Prop
  settle : α → α

namespace Codec

/-- The document of a value, with sorted members. -/
def document {α : Type} (c : Codec α) (x : α) : Json := (c.toJson x).canonical

/-- A value in which no `null` is left that means nothing. -/
def Settled {α : Type} (c : Codec α) (x : α) : Prop := c.Sound x ∧ c.settle x = x

/-- The document and the decoder fit. -/
structure Faithful {α : Type} (c : Codec α) : Prop where
  decode_document : ∀ x, c.Sound x → c.decode (c.document x) = .ok (c.settle x)
  gives : c.decode.Gives c.Settled

/-- A document that decodes is as good as the document of what it decodes to. -/
theorem Faithful.decode_again {α : Type} {c : Codec α} (hc : c.Faithful) {v : Json} {x : α}
    (hv : v.sorted = true) (h : c.decode v = .ok x) : c.decode (c.document x) = .ok x := by
  obtain ⟨hsound, hsettled⟩ := hc.gives v x hv h
  rw [hc.decode_document x hsound, hsettled]

end Codec

namespace Request

def codec : Codec Request where
  toJson := toJson
  decode := decode
  Sound r := IsWord r.id ∧ Tidy r.params
  settle r := { r with params := Wire.settle r.params }

theorem faithful : codec.Faithful where
  decode_document r h := by
    obtain ⟨hid, hparams⟩ := h
    obtain ⟨jsonrpc, id, method, params⟩ := r
    cases params with
    | none =>
        simp [Codec.document, codec, toJson, decode, record, Json.canonical, member,
          Json.lookup_canonical, List.lookup_cons, Json.member?, word_nat hid]
    | some v =>
        simp [Codec.document, codec, toJson, decode, record, Json.canonical, member,
          Json.lookup_canonical, List.lookup_cons, Json.member?, word_nat hid, nullable_value,
          Json.canonical_of_sorted (hparams v rfl)]
  gives := by
    have hread : ∀ {jsonrpc method : String} {id : Nat} {params : Option Json},
        IsWord id → Meant params →
          codec.Settled ⟨jsonrpc, id, method, params⟩ :=
      fun hid hparams => ⟨⟨hid, tidy_of_meant hparams⟩,
        congrArg (mk _ _ _) (settle_of_meant hparams)⟩
    refine gives_record (fun ms x hms h => ?_) (fun xs x hxs h => ?_)
    · obtain ⟨id, hid, h⟩ := ok_of_bind h
      obtain ⟨jsonrpc, _, h⟩ := ok_of_bind h
      obtain ⟨method, _, h⟩ := ok_of_bind h
      obtain ⟨params, hparams, h⟩ := ok_of_bind h
      obtain ⟨jsonrpc', _, h⟩ := ok_of_bind h
      obtain ⟨id', hid', h⟩ := ok_of_bind h
      obtain ⟨method', _, h⟩ := ok_of_bind h
      cases h
      exact hread (of_required (of_member gives_word hms hid) hid')
        (onSome_join (of_member gives_nullable_value hms hparams))
    · obtain ⟨jsonrpc, _, h⟩ := ok_of_bind h
      obtain ⟨id, hid, h⟩ := ok_of_bind h
      obtain ⟨method, _, h⟩ := ok_of_bind h
      obtain ⟨params, hparams, h⟩ := ok_of_bind h
      obtain ⟨_, _, h⟩ := ok_of_bind h
      cases h
      exact hread (of_requiredItem gives_word hxs hid)
        (of_requiredItem gives_nullable_value hxs hparams)

end Request

namespace Notification

def codec : Codec Notification where
  toJson := toJson
  decode := decode
  Sound n := Tidy n.params
  settle n := { n with params := Wire.settle n.params }

theorem faithful : codec.Faithful where
  decode_document n h := by
    have hparams : Tidy n.params := h
    obtain ⟨jsonrpc, method, params⟩ := n
    cases params with
    | none =>
        simp [Codec.document, codec, toJson, decode, record, Json.canonical, member,
          Json.lookup_canonical, List.lookup_cons, Json.member?]
    | some v =>
        simp [Codec.document, codec, toJson, decode, record, Json.canonical, member,
          Json.lookup_canonical, List.lookup_cons, Json.member?, nullable_value,
          Json.canonical_of_sorted (hparams v rfl)]
  gives := by
    have hread : ∀ {jsonrpc method : String} {params : Option Json}, Meant params →
        codec.Settled ⟨jsonrpc, method, params⟩ :=
      fun hparams => ⟨tidy_of_meant hparams, congrArg (mk _ _) (settle_of_meant hparams)⟩
    refine gives_record (fun ms x hms h => ?_) (fun xs x hxs h => ?_)
    · obtain ⟨jsonrpc, _, h⟩ := ok_of_bind h
      obtain ⟨method, _, h⟩ := ok_of_bind h
      obtain ⟨params, hparams, h⟩ := ok_of_bind h
      obtain ⟨jsonrpc', _, h⟩ := ok_of_bind h
      obtain ⟨method', _, h⟩ := ok_of_bind h
      cases h
      exact hread (onSome_join (of_member gives_nullable_value hms hparams))
    · obtain ⟨jsonrpc, _, h⟩ := ok_of_bind h
      obtain ⟨method, _, h⟩ := ok_of_bind h
      obtain ⟨params, hparams, h⟩ := ok_of_bind h
      obtain ⟨_, _, h⟩ := ok_of_bind h
      cases h
      exact hread (of_requiredItem gives_nullable_value hxs hparams)

end Notification

namespace RpcError

def codec : Codec RpcError where
  toJson := toJson
  decode := decode
  Sound e := IsSignedWord e.code ∧ Tidy e.data
  settle e := { e with data := Wire.settle e.data }

theorem faithful : codec.Faithful where
  decode_document e h := by
    obtain ⟨hcode, hdata⟩ := h
    obtain ⟨code, message, data⟩ := e
    cases data with
    | none =>
        simp [Codec.document, codec, toJson, decode, record, Json.canonical, member,
          Json.lookup_canonical, List.lookup_cons, Json.member?, signedWord_int hcode]
    | some v =>
        simp [Codec.document, codec, toJson, decode, record, Json.canonical, member,
          Json.lookup_canonical, List.lookup_cons, Json.member?, signedWord_int hcode,
          nullable_value, Json.canonical_of_sorted (hdata v rfl)]
  gives := by
    have hread : ∀ {code : Int} {message : String} {data : Option Json},
        IsSignedWord code → Meant data →
          codec.Settled ⟨code, message, data⟩ :=
      fun hcode hdata => ⟨⟨hcode, tidy_of_meant hdata⟩,
        congrArg (mk _ _) (settle_of_meant hdata)⟩
    refine gives_record (fun ms x hms h => ?_) (fun xs x hxs h => ?_)
    · obtain ⟨code, hcode, h⟩ := ok_of_bind h
      obtain ⟨data, hdata, h⟩ := ok_of_bind h
      obtain ⟨message, _, h⟩ := ok_of_bind h
      obtain ⟨code', hcode', h⟩ := ok_of_bind h
      cases h
      exact hread (of_required (of_member gives_signedWord hms hcode) hcode')
        (onSome_join (of_member gives_nullable_value hms hdata))
    · obtain ⟨code, hcode, h⟩ := ok_of_bind h
      obtain ⟨message, _, h⟩ := ok_of_bind h
      obtain ⟨data, hdata, h⟩ := ok_of_bind h
      obtain ⟨_, _, h⟩ := ok_of_bind h
      cases h
      exact hread (of_requiredItem gives_signedWord hxs hcode)
        (onSome_join (of_item gives_nullable_value hxs hdata))

/-- Where an error object is optional, its document is read as it is. -/
theorem nullable_document {e : RpcError} (h : codec.Sound e) :
    nullable decode e.toJson.canonical = .ok (some (codec.settle e)) := by
  have hdoc : decode e.toJson.canonical = .ok (codec.settle e) := faithful.decode_document e h
  rw [nullable_of_ne (by simp [toJson, Json.canonical]), hdoc, map_ok]

end RpcError

namespace Response

def codec : Codec Response where
  toJson := toJson
  decode := decode
  Sound r := IsWord r.id ∧ Tidy r.result ∧ OnSome RpcError.codec.Sound r.error
  settle r := { r with error := r.error.map RpcError.codec.settle }

theorem faithful : codec.Faithful where
  decode_document r h := by
    obtain ⟨hid, hresult, herror⟩ := h
    obtain ⟨jsonrpc, id, result, error⟩ := r
    cases result with
    | none =>
        cases error with
        | none =>
            simp [Codec.document, codec, toJson, decode, record, Json.canonical, member,
              Json.lookup_canonical, List.lookup_cons, Json.member?, word_nat hid]
        | some e =>
            simp [Codec.document, codec, toJson, decode, record, Json.canonical, member,
              Json.lookup_canonical, List.lookup_cons, Json.member?, word_nat hid,
              RpcError.nullable_document (herror e rfl)]
    | some v =>
        cases error with
        | none =>
            simp [Codec.document, codec, toJson, decode, record, Json.canonical, member,
              Json.lookup_canonical, List.lookup_cons, Json.member?, word_nat hid,
              Json.canonical_of_sorted (hresult v rfl)]
        | some e =>
            simp [Codec.document, codec, toJson, decode, record, Json.canonical, member,
              Json.lookup_canonical, List.lookup_cons, Json.member?, word_nat hid,
              RpcError.nullable_document (herror e rfl), Json.canonical_of_sorted (hresult v rfl)]
  gives := by
    have hread : ∀ {jsonrpc : String} {id : Nat} {result : Option Json} {error : Option RpcError},
        IsWord id → Tidy result →
        OnSome RpcError.codec.Settled error → codec.Settled ⟨jsonrpc, id, result, error⟩ := by
      intro jsonrpc id result error hid hresult herror
      refine ⟨⟨hid, hresult, fun e he => (herror e he).1⟩, congrArg (mk _ _ _) ?_⟩
      cases error with
      | none => rfl
      | some e => exact congrArg some (herror e rfl).2
    refine gives_record (fun ms x hms h => ?_) (fun xs x hxs h => ?_)
    · obtain ⟨error, herror, h⟩ := ok_of_bind h
      obtain ⟨id, hid, h⟩ := ok_of_bind h
      obtain ⟨jsonrpc, _, h⟩ := ok_of_bind h
      obtain ⟨result, hresult, h⟩ := ok_of_bind h
      obtain ⟨id', hid', h⟩ := ok_of_bind h
      cases h
      exact hread (of_required (of_member gives_word hms hid) hid')
        (of_member gives_value hms hresult)
        (onSome_join (of_member (gives_nullable RpcError.faithful.gives) hms herror))
    · obtain ⟨jsonrpc, _, h⟩ := ok_of_bind h
      obtain ⟨id, hid, h⟩ := ok_of_bind h
      obtain ⟨result, hresult, h⟩ := ok_of_bind h
      obtain ⟨error, herror, h⟩ := ok_of_bind h
      obtain ⟨_, _, h⟩ := ok_of_bind h
      cases h
      exact hread (of_requiredItem gives_word hxs hid) (of_item gives_value hxs hresult)
        (onSome_join (of_item (gives_nullable RpcError.faithful.gives) hxs herror))

end Response

/-! ## The handshake -/

namespace Capabilities

def codec : Codec Capabilities where
  toJson := toJson
  decode := decode
  Sound c := Tidy c.sampling ∧ Tidy c.experimental
  settle c := { sampling := Wire.settle c.sampling, experimental := Wire.settle c.experimental }

theorem faithful : codec.Faithful where
  decode_document c h := by
    obtain ⟨hsampling, hexperimental⟩ := h
    obtain ⟨sampling, experimental⟩ := c
    cases sampling with
    | none =>
        cases experimental with
        | none =>
            simp [Codec.document, codec, toJson, decode, record, Json.canonical, member,
              Json.lookup_canonical, Json.member?]
        | some v =>
            simp [Codec.document, codec, toJson, decode, record, Json.canonical, member,
              Json.lookup_canonical, List.lookup_cons, Json.member?, nullable_value,
              Json.canonical_of_sorted (hexperimental v rfl)]
    | some u =>
        cases experimental with
        | none =>
            simp [Codec.document, codec, toJson, decode, record, Json.canonical, member,
              Json.lookup_canonical, List.lookup_cons, Json.member?, nullable_value,
              Json.canonical_of_sorted (hsampling u rfl)]
        | some v =>
            simp [Codec.document, codec, toJson, decode, record, Json.canonical, member,
              Json.lookup_canonical, List.lookup_cons, Json.member?, nullable_value,
              Json.canonical_of_sorted (hsampling u rfl),
              Json.canonical_of_sorted (hexperimental v rfl)]
  gives := by
    have hread : ∀ {sampling experimental : Option Json}, Meant sampling → Meant experimental →
        codec.Settled ⟨sampling, experimental⟩ :=
      fun hs he => ⟨⟨tidy_of_meant hs, tidy_of_meant he⟩,
        congrArg₂ mk (settle_of_meant hs) (settle_of_meant he)⟩
    refine gives_record (fun ms x hms h => ?_) (fun xs x hxs h => ?_)
    · obtain ⟨experimental, he, h⟩ := ok_of_bind h
      obtain ⟨sampling, hs, h⟩ := ok_of_bind h
      cases h
      exact hread (onSome_join (of_member gives_nullable_value hms hs))
        (onSome_join (of_member gives_nullable_value hms he))
    · obtain ⟨sampling, hs, h⟩ := ok_of_bind h
      obtain ⟨experimental, he, h⟩ := ok_of_bind h
      obtain ⟨_, _, h⟩ := ok_of_bind h
      cases h
      exact hread (of_requiredItem gives_nullable_value hxs hs)
        (of_requiredItem gives_nullable_value hxs he)

end Capabilities

theorem ClientInfo.decode_document (c : ClientInfo) :
    ClientInfo.decode c.toJson.canonical = .ok c := by
  simp [toJson, decode, record, Json.canonical, member, Json.lookup_canonical, List.lookup_cons]

theorem ServerInfo.decode_document (s : ServerInfo) :
    ServerInfo.decode s.toJson.canonical = .ok s := by
  simp [toJson, decode, record, Json.canonical, member, Json.lookup_canonical, List.lookup_cons]

namespace OpenParams

def codec : Codec OpenParams where
  toJson := toJson
  decode := decode
  Sound p := Capabilities.codec.Sound p.capabilities
  settle p := { p with capabilities := Capabilities.codec.settle p.capabilities }

theorem faithful : codec.Faithful where
  decode_document p h := by
    have hcapabilities : Capabilities.decode p.capabilities.toJson.canonical
        = .ok (Capabilities.codec.settle p.capabilities) :=
      Capabilities.faithful.decode_document _ h
    simp [Codec.document, codec, toJson, decode, record, Json.canonical, member,
      Json.lookup_canonical, List.lookup_cons, hcapabilities, ClientInfo.decode_document]
  gives := by
    have hread : ∀ {version : String} {capabilities : Capabilities} {info : ClientInfo},
        Capabilities.codec.Settled capabilities → codec.Settled ⟨version, capabilities, info⟩ :=
      fun h => ⟨h.1, congrArg (mk _ · _) h.2⟩
    refine gives_record (fun ms x hms h => ?_) (fun xs x hxs h => ?_)
    · obtain ⟨capabilities, hc, h⟩ := ok_of_bind h
      obtain ⟨info, _, h⟩ := ok_of_bind h
      obtain ⟨version, _, h⟩ := ok_of_bind h
      obtain ⟨version', _, h⟩ := ok_of_bind h
      obtain ⟨capabilities', hc', h⟩ := ok_of_bind h
      obtain ⟨info', _, h⟩ := ok_of_bind h
      cases h
      exact hread (of_required (of_member Capabilities.faithful.gives hms hc) hc')
    · obtain ⟨version, _, h⟩ := ok_of_bind h
      obtain ⟨capabilities, hc, h⟩ := ok_of_bind h
      obtain ⟨info, _, h⟩ := ok_of_bind h
      obtain ⟨_, _, h⟩ := ok_of_bind h
      cases h
      exact hread (of_requiredItem Capabilities.faithful.gives hxs hc)

end OpenParams

namespace OpenResult

def codec : Codec OpenResult where
  toJson := toJson
  decode := decode
  Sound r := r.capabilities.sorted = true
  settle := id

theorem nullable_serverInfo (o : Option ServerInfo) :
    nullable ServerInfo.decode (Json.ofOption ServerInfo.toJson o).canonical = .ok o := by
  cases o with
  | none => rfl
  | some s =>
      rw [Json.ofOption, nullable_of_ne (by simp [ServerInfo.toJson, Json.canonical]),
        ServerInfo.decode_document, map_ok]

theorem faithful : codec.Faithful where
  decode_document r h := by
    have hcapabilities : r.capabilities.canonical = r.capabilities := Json.canonical_of_sorted h
    simp [Codec.document, codec, toJson, decode, record, Json.canonical, member,
      Json.lookup_canonical, List.lookup_cons, hcapabilities, nullable_serverInfo]
  gives := by
    have hread : ∀ {capabilities : Option Json}, Tidy capabilities →
        (capabilities.getD .null).sorted = true := by
      intro capabilities h
      cases capabilities with
      | none => rfl
      | some v => exact h v rfl
    refine gives_record (fun ms x hms h => ?_) (fun xs x hxs h => ?_)
    · obtain ⟨capabilities, hc, h⟩ := ok_of_bind h
      obtain ⟨version, _, h⟩ := ok_of_bind h
      obtain ⟨info, _, h⟩ := ok_of_bind h
      cases h
      exact ⟨hread (of_member gives_value hms hc), rfl⟩
    · obtain ⟨version, _, h⟩ := ok_of_bind h
      obtain ⟨capabilities, hc, h⟩ := ok_of_bind h
      obtain ⟨info, _, h⟩ := ok_of_bind h
      obtain ⟨_, _, h⟩ := ok_of_bind h
      cases h
      exact ⟨hread (of_item gives_value hxs hc), rfl⟩

end OpenResult

/-! ## Tools -/

namespace Tool

def codec : Codec Tool where
  toJson := toJson
  decode := decode
  Sound t := t.inputSchema.sorted = true
  settle := id

theorem faithful : codec.Faithful where
  decode_document t h := by
    have hschema : t.inputSchema.canonical = t.inputSchema := Json.canonical_of_sorted h
    simp [Codec.document, codec, toJson, decode, record, Json.canonical, member,
      Json.lookup_canonical, List.lookup_cons, hschema]
  gives := by
    have hread : ∀ {schema : Option Json}, Tidy schema →
        (schema.getD .null).sorted = true := by
      intro schema h
      cases schema with
      | none => rfl
      | some v => exact h v rfl
    refine gives_record (fun ms x hms h => ?_) (fun xs x hxs h => ?_)
    · obtain ⟨description, _, h⟩ := ok_of_bind h
      obtain ⟨schema, hs, h⟩ := ok_of_bind h
      obtain ⟨name, _, h⟩ := ok_of_bind h
      obtain ⟨name', _, h⟩ := ok_of_bind h
      cases h
      exact ⟨hread (of_member gives_value hms hs), rfl⟩
    · obtain ⟨name, _, h⟩ := ok_of_bind h
      obtain ⟨description, _, h⟩ := ok_of_bind h
      obtain ⟨schema, hs, h⟩ := ok_of_bind h
      obtain ⟨_, _, h⟩ := ok_of_bind h
      cases h
      exact ⟨hread (of_item gives_value hxs hs), rfl⟩

end Tool

namespace ToolCall

def codec : Codec ToolCall where
  toJson := toJson
  decode := decode
  Sound c := c.arguments.sorted = true
  settle := id

theorem faithful : codec.Faithful where
  decode_document c h := by
    have harguments : c.arguments.canonical = c.arguments := Json.canonical_of_sorted h
    simp [Codec.document, codec, toJson, decode, record, Json.canonical, member,
      Json.lookup_canonical, List.lookup_cons, harguments]
  gives := by
    have hread : ∀ {name : String} {arguments : Json}, arguments.sorted = true →
        codec.Settled ⟨name, arguments⟩ := fun harguments => ⟨harguments, rfl⟩
    refine gives_record (fun ms x hms h => ?_) (fun xs x hxs h => ?_)
    · obtain ⟨arguments, ha, h⟩ := ok_of_bind h
      obtain ⟨name, _, h⟩ := ok_of_bind h
      obtain ⟨name', _, h⟩ := ok_of_bind h
      obtain ⟨arguments', ha', h⟩ := ok_of_bind h
      cases h
      have hsorted : Tidy arguments := of_member gives_value hms ha
      exact hread (of_required (P := fun v : Json => v.sorted = true) hsorted ha')
    · obtain ⟨name, _, h⟩ := ok_of_bind h
      obtain ⟨arguments, ha, h⟩ := ok_of_bind h
      obtain ⟨_, _, h⟩ := ok_of_bind h
      cases h
      exact hread (of_requiredItem (P := fun v : Json => v.sorted = true) gives_value hxs ha)

end ToolCall

namespace Content

def codec : Codec Content where
  toJson := toJson
  decode := decode
  Sound _ := True
  settle := id

theorem faithful : codec.Faithful where
  decode_document c _ := by
    obtain ⟨kind, text⟩ := c
    cases text with
    | none =>
        simp [Codec.document, codec, toJson, decode, record, Json.canonical, member,
          Json.lookup_canonical, List.lookup_cons, Json.member?]
    | some s =>
        simp [Codec.document, codec, toJson, decode, record, Json.canonical, member,
          Json.lookup_canonical, List.lookup_cons, Json.member?, nullable_of_ne]
  gives := fun _ _ _ _ => ⟨trivial, rfl⟩

end Content

/-! ## The nine records -/

/-- Decoding undoes writing, but for a `null` that means nothing, and what was decoded once is
decoded to the same again. -/
structure Codec.RoundTrips {α : Type} (c : Codec α) : Prop where
  back : ∀ x, c.Sound x → c.decode (c.document x) = .ok (c.settle x)
  again : ∀ v x, v.sorted = true → c.decode v = .ok x → c.decode (c.document x) = .ok x

theorem Codec.Faithful.roundTrips {α : Type} {c : Codec α} (hc : c.Faithful) : c.RoundTrips :=
  ⟨hc.decode_document, fun _ _ => hc.decode_again⟩

/-- The result of a response comes back as it is, and with it the shape. -/
theorem Response.settle_shape (r : Response) :
    (codec.settle r).result = r.result ∧ (codec.settle r).misshape = r.misshape := by
  obtain ⟨jsonrpc, id, result, error⟩ := r
  cases result <;> cases error <;> exact ⟨rfl, rfl⟩

/-- Every record of the protocol survives writing and decoding, whatever is in it, but for a
`null` in `params`, in the `data` of an error, or as a capability of a client: that comes back as
nothing.  What is decoded is free of these, so it comes back as it is.  A response keeps its result,
a `null` too, and its shape. -/
theorem wire_round_trip :
    Request.codec.RoundTrips ∧ Notification.codec.RoundTrips ∧ Response.codec.RoundTrips ∧
    RpcError.codec.RoundTrips ∧ OpenParams.codec.RoundTrips ∧ OpenResult.codec.RoundTrips ∧
    Tool.codec.RoundTrips ∧ ToolCall.codec.RoundTrips ∧ Content.codec.RoundTrips ∧
    ∀ r : Response,
      (Response.codec.settle r).result = r.result ∧
      (Response.codec.settle r).misshape = r.misshape :=
  ⟨Request.faithful.roundTrips, Notification.faithful.roundTrips, Response.faithful.roundTrips,
    RpcError.faithful.roundTrips, OpenParams.faithful.roundTrips, OpenResult.faithful.roundTrips,
    Tool.faithful.roundTrips, ToolCall.faithful.roundTrips, Content.faithful.roundTrips,
    Response.settle_shape⟩

/-- A response with a `null` for its result and for the data of its error, at the bounds of
id and code: the result stays, the data goes, and both members are still there.  A request whose
parameters are `null` comes back without. -/
theorem wire_round_trip_of_nulls :
    let e : RpcError := { code := -9223372036854775808, data := some .null }
    let r : Response := { id := 18446744073709551615, result := some .null, error := some e }
    Response.decode (Response.codec.document r) = .ok { r with error := some { e with data := none } } ∧
    (Response.codec.settle r).misshape = some .both ∧
    Request.decode (Request.codec.document { id := 1, method := "m", params := some .null })
      = .ok { id := 1, method := "m", params := none } := by
  intro e r
  obtain ⟨hrequest, _, hresponse, _, _, _, _, _, _, hshape⟩ := wire_round_trip
  have hnull : Tidy (some .null) := fun v hv => by
    cases hv
    rfl
  refine ⟨hresponse.back r ⟨by decide, hnull, fun e' he => ?_⟩, (hshape r).2,
    hrequest.back _ ⟨by decide, hnull⟩⟩
  cases he
  exact ⟨by decide, hnull⟩

end Wire

end Conformance
