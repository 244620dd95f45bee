/-
Conformance — what is written is what is read.

The line of a message, parsed, gives the message back (`read_line`): its
id, its method and its parameters, the members of which come sorted, as a
document read from text has them.  That needs parameters without doubles and
with containers that nest at most 126 deep, since the message is one more
level; the arguments of a tool call are two levels down, so 125 is their bound.

A message is one line, hence the lines of a session are its messages, in order
(`read_frames`).  Where writes are cut that holds as far as the lines do: the
messages written whole come through if none of them is behind one that was cut
in the middle (`read_portions`).
-/
import Conformance.Proofs.Json.RoundTrip
import Conformance.Proofs.Stdio.Framing

namespace Conformance

open Stdio (frame ended Portion)

/-! ## Messages -/

/-- What a client sends. -/
inductive Message where
  | request (r : Wire.Request)
  | notification (n : Wire.Notification)

namespace Message

def toJson : Message → Json
  | request r => r.toJson
  | notification n => n.toJson

/-- The line of a message. -/
def line (m : Message) : String := m.toJson.print

/-- The message that a document is; without an id it is a notification. -/
def ofJson? (v : Json) : Option Message := do
  let jsonrpc ← (v.getD "jsonrpc").asString?
  let method ← (v.getD "method").asString?
  match v.get? "id" with
  | none => some (.notification { jsonrpc, method, params := v.get? "params" })
  | some id => some (.request { jsonrpc, id := ← id.asNat?, method, params := v.get? "params" })

/-- The message that some octets are the text of. -/
def read? (octets : List UInt8) : Option Message := do
  let line ← Utf8.decode? octets
  ofJson? (← (Json.parse line).toOption)

/-- The message with the members of its parameters sorted. -/
def canonical : Message → Message
  | request r => .request { r with params := r.params.map Json.canonical }
  | notification n => .notification { n with params := n.params.map Json.canonical }

/-- The parameters have a faithful text one level down. -/
def plainParams (params : Option Json) : Bool :=
  params.all fun v => v.integral && decide (v.depth < Json.nestingLimit)

/-- The message has a faithful text: its id is one word, and so on. -/
def plain : Message → Bool
  | request r => decide (r.id < Word.bound) && plainParams r.params
  | notification n => plainParams n.params

/-! ## One message -/

theorem canonical_request (r : Wire.Request) : r.toJson.canonical =
    .obj ([("id", .nat r.id), ("jsonrpc", .str r.jsonrpc), ("method", .str r.method)]
      ++ Json.member? "params" (r.params.map Json.canonical)) := by
  have hpair : Json.sortMembers [("jsonrpc", .str r.jsonrpc), ("id", .nat r.id)]
      = [("id", .nat r.id), ("jsonrpc", .str r.jsonrpc)] :=
    Json.insert_of_below (show "id" < "jsonrpc" by decide)
  have hthree := Json.sortMembers_concat (v := .str r.method) hpair
    (show ∀ k ∈ ["id", "jsonrpc"], k < "method" by decide)
  rw [Wire.Request.toJson, Json.canonical]
  cases r.params with
  | none => exact congrArg Json.obj hthree
  | some v =>
      exact congrArg Json.obj (Json.sortMembers_concat hthree
        (show ∀ k ∈ ["id", "jsonrpc", "method"], k < "params" by decide))

theorem canonical_notification (n : Wire.Notification) : n.toJson.canonical =
    .obj ([("jsonrpc", .str n.jsonrpc), ("method", .str n.method)]
      ++ Json.member? "params" (n.params.map Json.canonical)) := by
  have hpair : Json.sortMembers [("jsonrpc", .str n.jsonrpc), ("method", .str n.method)]
      = [("jsonrpc", .str n.jsonrpc), ("method", .str n.method)] :=
    Json.sortMembers_of_sorted (show ["jsonrpc", "method"].Pairwise (· < ·) by decide)
  rw [Wire.Notification.toJson, Json.canonical]
  cases n.params with
  | none => exact congrArg Json.obj hpair
  | some v =>
      exact congrArg Json.obj (Json.sortMembers_concat hpair
        (show ∀ k ∈ ["jsonrpc", "method"], k < "params" by decide))

/-- A message is read off its document. -/
theorem ofJson_canonical (m : Message) : ofJson? m.toJson.canonical = some m.canonical := by
  cases m with
  | request r =>
      have hid : (Json.nat r.id).asNat? = some r.id := by simp [Json.nat, Json.asNat?]
      rw [toJson, canonical_request]
      cases hp : r.params <;>
        simp [ofJson?, canonical, Json.getD, Json.get?, Json.member?, Json.asString?,
          List.lookup_cons, hid, hp]
  | notification n =>
      rw [toJson, canonical_notification]
      cases hp : n.params <;>
        simp [ofJson?, canonical, Json.getD, Json.get?, Json.member?, Json.asString?,
          List.lookup_cons, hp]

theorem members_of_plainParams {params : Option Json} (h : plainParams params = true) :
    Json.integralMembers (Json.member? "params" params) = true ∧
      Json.depthMembers (Json.member? "params" params) < Json.nestingLimit := by
  cases params with
  | none => exact ⟨rfl, by decide⟩
  | some v => simpa [plainParams, Json.member?, Json.integralMembers, Json.depthMembers] using h

theorem document_of_plain {m : Message} (hm : m.plain = true) :
    m.toJson.integral = true ∧ m.toJson.depth ≤ Json.nestingLimit := by
  cases m with
  | request r =>
      obtain ⟨hid, hparams⟩ : r.id < Word.bound ∧ plainParams r.params = true := by
        simpa [plain] using hm
      obtain ⟨hintegral, hdepth⟩ := members_of_plainParams hparams
      have hword : (Json.nat r.id).integral = true := by
        simp only [Json.nat, Json.integral, Json.Number.isWord, decide_eq_true_eq]
        exact ⟨by omega, by exact_mod_cast hid⟩
      constructor
      · simp [toJson, Wire.Request.toJson, Json.integral, Json.integralMembers, hword, hintegral]
      · simpa [toJson, Wire.Request.toJson, Json.depth, Json.depthMembers, Json.nat, Nat.succ_le_iff]
          using hdepth
  | notification n =>
      have hparams : plainParams n.params = true := hm
      obtain ⟨hintegral, hdepth⟩ := members_of_plainParams hparams
      constructor
      · simp [toJson, Wire.Notification.toJson, Json.integral, Json.integralMembers, hintegral]
      · simpa [toJson, Wire.Notification.toJson, Json.depth, Json.depthMembers, Nat.succ_le_iff]
          using hdepth

/-- The line of a message is read as the message. -/
theorem read_line {m : Message} (hm : m.plain = true) :
    read? (Utf8.encode m.line) = some m.canonical := by
  obtain ⟨hintegral, hdepth⟩ := document_of_plain hm
  have hparse : Json.parse m.line = .ok m.toJson.canonical := Json.parse_print hintegral hdepth
  rw [read?, Utf8.decode_eq_some_iff.mpr rfl]
  show ofJson? =<< (Json.parse m.line).toOption = some m.canonical
  rw [hparse]
  exact ofJson_canonical m

/-! ## Messages one behind the other -/

/-- The messages that were written whole, each read from its line. -/
theorem read_wholeMessages {ps : List Portion} : ∀ {ms : List Message},
    ps.map (·.message) <+: ms.map line → (∀ m ∈ ms, m.plain = true) →
    (Stdio.wholeMessages ps).map read? =
      ((ps.zip ms).filter fun x => decide x.1.Whole).map fun x => some x.2.canonical := by
  induction ps with
  | nil => exact fun _ _ => rfl
  | cons p ps ih =>
      intro ms hlines hms
      cases ms with
      | nil => exact absurd (List.prefix_nil.mp hlines) (List.cons_ne_nil _ _)
      | cons m ms =>
          obtain ⟨hline, hrest⟩ := List.cons_prefix_cons.mp hlines
          have hread : read? (Utf8.encode p.message) = some m.canonical := by
            rw [show p.message = m.line from hline]
            exact read_line (hms m List.mem_cons_self)
          have hmore := ih hrest fun n hn => hms n (List.mem_cons_of_mem m hn)
          rw [Stdio.wholeMessages] at hmore ⊢
          by_cases hwhole : p.Whole <;> simp_all

/-- In a pipe that took portions of the lines of messages, what is read line by line is the
messages written whole, if none of them is behind one that was cut in the middle. -/
theorem read_portions {ps : List Portion} {ms : List Message}
    (hlines : ps.map (·.message) <+: ms.map line) (hms : ∀ m ∈ ms, m.plain = true)
    (hcut : ps.Pairwise fun p q => p.Cut → ¬ q.Whole) :
    (ended (ps.flatMap (·.octets))).map read? =
      ((ps.zip ms).filter fun x => decide x.1.Whole).map fun x => some x.2.canonical := by
  have hone : ∀ p ∈ ps, p.OneLine := by
    intro p hp
    obtain ⟨m, _, hm⟩ := List.mem_map.mp (hlines.subset (List.mem_map_of_mem hp))
    rw [Portion.OneLine, ← hm]
    exact Json.newline_not_mem_print _
  have hended : ended ([] ++ ps.flatMap (·.octets)) = Stdio.received [] ps :=
    Stdio.ended_of_portions ps List.not_mem_nil hone
  have hwhole : Stdio.received [] ps = Stdio.wholeMessages ps :=
    (Stdio.received_eq_iff ps []).mpr ⟨fun hne => absurd rfl hne, hcut⟩
  rw [← List.nil_append (ps.flatMap _), hended, hwhole]
  exact read_wholeMessages hlines hms

/-- The frame of a message, all of it. -/
def portion (m : Message) : Portion where
  message := m.line
  done := true
  octets := frame m.line
  part := List.prefix_refl _
  full := fun _ => rfl

theorem whole_portion (m : Message) : m.portion.Whole := rfl

/-- The frames of messages, split at the newlines and read piece by piece, are the messages. -/
theorem read_frames {ms : List Message} (hms : ∀ m ∈ ms, m.plain = true) :
    (ended (ms.flatMap fun m => frame m.line)).map read? = ms.map fun m => some m.canonical := by
  have hlines : (ms.map portion).map (·.message) <+: ms.map line := by
    rw [List.map_map]
    exact List.prefix_refl _
  have hcut : (ms.map portion).Pairwise fun p q => p.Cut → ¬ q.Whole := by
    exact List.pairwise_map.mpr (List.pairwise_of_forall fun m _ hm => absurd (whole_portion m) hm.1)
  have hread := read_portions hlines hms hcut
  rw [List.flatMap_map] at hread
  rw [show (ms.flatMap fun m => frame m.line) = ms.flatMap fun m => m.portion.octets from rfl, hread]
  clear hms hlines hcut hread
  induction ms with
  | nil => rfl
  | cons m ms ih => simpa [whole_portion] using ih

end Message

/-! ## The messages of a run -/

/-- The message of an operation that writes one, with its id if it is a request. -/
def Operation.message (o : ClientOptions) (id : Nat) (op : Operation) : Option Message :=
  match op.asks o, op with
  | some q, _ => some (.request { id, method := q.method, params := q.params })
  | none, .notify n => some (.notification n)
  | none, _ => none

/-- The message whose write begins. -/
def Entry.message (o : ClientOptions) (x : Entry) : Option Message :=
  match x.event, x.after.phase with
  | .start op, some (.write _ _) => op.message o x.after.conn.lastId
  | _, some (.write _ _) => some (.notification .opened)
  | _, _ => none

/-- The messages whose write has begun, in order. -/
def History.messages (o : ClientOptions) (h : History) : List Message :=
  (h.filterMap (Entry.message o)).reverse

theorem messages_cons (o : ClientOptions) (x : Entry) (h : History) :
    History.messages o (x :: h) = h.messages o ++ (x.message o).toList := by
  rw [History.messages, History.messages, List.filterMap_cons]
  cases x.message o <;> simp

/-- What begins to be written is the line of the message. -/
theorem begins_of_message {o : ClientOptions} {s s' : Client} {e : Event} {r : Option Outcome}
    (hturn : Client.Turn o s e s' r) :
    (Entry.begins ⟨s, e, s', r⟩).map (·.2) = (Entry.message o ⟨s, e, s', r⟩).map Message.line := by
  obtain ⟨c, phase⟩ := s
  cases hturn with
  | @asks op q hp hd hq =>
      have hmessage : op.message o (c.lastId + 1)
          = some (.request { id := c.lastId + 1, method := q.method, params := q.params }) := by
        simp only [Operation.message, hq]
      rw [Entry.message]
      exact (congrArg (Option.map Message.line) hmessage).symm
  | passes hp | declined hp =>
      cases hp
      rfl
  | _ => rfl

theorem lines_of_messages {o : ClientOptions} {h : History} (hrun : Run o h) :
    h.lines.map (·.2) = (h.messages o).map Message.line := by
  refine run_induction (P := fun h => h.lines.map (·.2) = (h.messages o).map Message.line) rfl ?_
    hrun
  intro h e s r _ ih hturn
  rw [History.lines_cons, messages_cons, List.map_append, List.map_append, ih, ← Option.toList_map,
    ← Option.toList_map, begins_of_message hturn]

/-! ## The line of a tool call -/

/-- What the line of a tool call is: the text of its message, key by key, without a control
character, and for a reader the id, the method, the name and the arguments. -/
structure CallLine (id : Nat) (name : String) (arguments : Json) (line : String) : Prop where
  text : line.toList =
    "\x7b\"jsonrpc\":\"2.0\",\"id\":".toList ++ Nat.toDigits 10 id
      ++ ",\"method\":\"tools/call\",\"params\":\x7b\"name\":".toList ++ Json.stringText name
      ++ ",\"arguments\":".toList ++ arguments.text ++ "\x7d\x7d".toList
  clean : ∀ b ∈ Utf8.encode line, 0x20 ≤ b.toNat
  parsed : Json.parse line = .ok (.obj [("id", .nat id), ("jsonrpc", .str "2.0"),
    ("method", .str "tools/call"), ("params", .obj [("arguments", arguments), ("name", .str name)])])

/-- The message of a tool call. -/
def callMessage (id : Nat) (name : String) (arguments : Json) : Message :=
  .request
    { id, method := Wire.callMethod, params := some (Wire.ToolCall.toJson { name, arguments }) }

theorem plain_callMessage {id : Nat} (name : String) {arguments : Json} (hid : id < Word.bound)
    (hv : arguments.integral = true) (hd : arguments.depth ≤ 125) :
    (callMessage id name arguments).plain = true := by
  have hparams : Message.plainParams (some (Wire.ToolCall.toJson { name, arguments })) = true := by
    simp [Message.plainParams, Wire.ToolCall.toJson, Json.integral, Json.integralMembers, Json.depth,
      Json.depthMembers, Json.nestingLimit, hv]
    omega
  simp only [callMessage, Message.plain, hparams, hid, decide_true, Bool.and_self]

theorem canonical_toolCall (name : String) {arguments : Json} (hs : arguments.sorted = true) :
    (Wire.ToolCall.toJson { name, arguments }).canonical =
      .obj [("arguments", arguments), ("name", .str name)] := by
  have hsort : Json.sortMembers [("name", .str name), ("arguments", arguments)]
      = [("arguments", arguments), ("name", .str name)] :=
    Json.insert_of_below (show "arguments" < "name" by decide)
  simp only [Wire.ToolCall.toJson, Json.canonical, Json.canonicalMembers,
    Json.canonical_of_sorted hs, hsort]

theorem callLine_of_plain {id : Nat} {name : String} {arguments : Json} (hid : id < Word.bound)
    (hs : arguments.sorted = true) (hv : arguments.integral = true) (hd : arguments.depth ≤ 125) :
    CallLine id name arguments (callMessage id name arguments).line where
  text := by
    have hdigits : (Json.Number.int id).text = Nat.toDigits 10 id := by
      rw [Json.Number.text, if_neg (by omega), Int.natAbs_natCast]
    simp only [callMessage, Message.line, Message.toJson, Wire.Request.toJson, Json.print,
      String.toList_ofList, Json.member?, List.cons_append, List.nil_append, Json.text,
      Json.membersText, Json.nat, hdigits, Wire.ToolCall.toJson, List.append_assoc]
    rfl
  clean := by
    intro b hb
    by_contra hlow
    exact Json.low_not_mem_print _ (Nat.lt_of_not_le hlow) hb
  parsed := by
    obtain ⟨hintegral, hdepth⟩ := Message.document_of_plain (plain_callMessage name hid hv hd)
    rw [Message.line, Json.parse_print hintegral hdepth, callMessage, Message.toJson,
      Message.canonical_request, Option.map_some, canonical_toolCall name hs]
    rfl

/-! ## Fidelity -/

/-- What a tool call writes, and what a session writes.

On every open connection, whatever its last id, the line of a tool call with any name and any
arguments without doubles that nest at most 125 deep is a `CallLine`: its keys are in order, no
octet of it is a control character, and parsed it is the id, the method, the name and the arguments.

So behind every run whose messages have a faithful text the lines, one behind the other and split
at the newlines, are read as the messages of the run, in order.  What is in a pipe that took only
portions of some of them is read as the messages it took whole, if none of these is behind one that
was cut. -/
theorem wire_fidelity (o : ClientOptions) :
    (∀ (c : Connection) (name : String) (arguments : Json), c.state = .ready →
      c.lastId + 1 < Word.bound → arguments.sorted = true → arguments.integral = true →
      arguments.depth ≤ 125 →
      ∃ line, (c.begin o (.callTool name arguments)).2
          = .next (.write (.request .answer (c.lastId + 1)) line) ∧
        CallLine (c.lastId + 1) name arguments line) ∧
    ∀ h : History, Run o h → (∀ m ∈ h.messages o, m.plain = true) →
      (ended (h.lines.flatMap fun l => frame l.2)).map Message.read?
          = (h.messages o).map (fun m => some m.canonical) ∧
        ∀ ps : List Portion, ps.map (fun p => (p.message, p.done)) = h.writes →
          (ps.Pairwise fun p q => p.Cut → ¬ q.Whole) →
          (ended (ps.flatMap (·.octets))).map Message.read? =
            ((ps.zip (h.messages o)).filter fun x => decide x.1.Whole).map
              fun x => some x.2.canonical := by
  constructor
  · intro c name arguments hready hid hs hv hd
    have hrefusal : c.refusal = none := Connection.refusal_eq_none_iff.mpr hready
    refine ⟨(callMessage (c.lastId + 1) name arguments).line, ?_, callLine_of_plain hid hs hv hd⟩
    simp only [Operation.callTool, Connection.begin, hrefusal]
    rfl
  · intro h hrun hplain
    have hlines := lines_of_messages hrun
    constructor
    · have hbytes : (h.lines.flatMap fun l => frame l.2)
          = (h.messages o).flatMap fun m => frame m.line := by
        calc (h.lines.flatMap fun l => frame l.2)
            = (h.lines.map (·.2)).flatMap frame := (List.flatMap_map _ _ _).symm
          _ = (h.messages o).flatMap fun m => frame m.line := by rw [hlines, List.flatMap_map]
      rw [hbytes]
      exact Message.read_frames hplain
    · intro ps hps hcut
      have hprefix : ps.map (·.message) <+: (h.messages o).map Message.line := by
        have hwrites : ps.map (·.message) = h.writes.map (·.1) := by
          rw [← hps, List.map_map]
          rfl
        rw [← hlines, ← lines_of_writes hrun, hwrites]
        exact List.prefix_append _ _
      exact Message.read_portions hprefix hplain hcut

/-- The arguments of a call with a control character, a quote and a character beyond the first
plane, and with the least and the greatest number. -/
def oddArguments : Json :=
  .obj [("a", .arr [.int (-9223372036854775808), .int 18446744073709551615]),
    ("b", .str "\t\"😀")]

/-- A session that is opened and has called one tool. -/
def oneCall : History :=
  History.play {}
    [.start .connect, .written (.ok ()), .heard (.ok (.line "\x7b\"id\":1,\"result\":\x7b\x7d\x7d")),
      .written (.ok ()), .start (.callTool "odd\n" oddArguments), .written (.ok ())]

theorem oneCall_messages : oneCall.messages {} =
    [.request { id := 1, method := "initialize", params := some (Wire.OpenParams.of {}).toJson },
      .notification { method := "notifications/initialized" },
      callMessage 2 "odd\n" oddArguments] := rfl

theorem wire_fidelity_of_odd_call :
    (∃ line, (oneCall.now.conn.begin {} (.callTool "odd\n" oddArguments)).2
        = .next (.write (.request .answer 3) line) ∧ CallLine 3 "odd\n" oddArguments line) ∧
      (ended (oneCall.lines.flatMap fun l => frame l.2)).map Message.read?
        = (oneCall.messages {}).map fun m => some m.canonical := by
  obtain ⟨hcall, hsession⟩ := wire_fidelity {}
  refine ⟨hcall oneCall.now.conn "odd\n" oddArguments rfl (by decide) rfl rfl (by decide), ?_⟩
  refine (hsession oneCall (run_play {} _) ?_).1
  rw [oneCall_messages]
  decide

end Conformance
