/-
Conformance — what the demonstration server answers to a client.

A request of the client whose parameters have a faithful text reaches the server as it was meant
(`asks_of_line`).  A sound server answers a listing with its tools, and a call with a response that is
well-shaped, whatever tool is called with whatever arguments (`answers_listing`, `answers_call`); the
answer to a scan of a path is always a result with a text (`answers_scan`).
-/
import Conformance.Proofs.Demo.Attending
import Conformance.Proofs.Session.Fidelity
import Conformance.Proofs.Session.Sharing
import Conformance.Suite.Smoke

namespace Conformance.DemoServer

section Requests

variable {q : Inquiry} {id : Nat}

/-- The message of an inquiry. -/
def messageOf (q : Inquiry) (id : Nat) : Json :=
  (Wire.Request.toJson { id, method := q.method, params := q.params }).canonical

/-- The line of an inquiry asks for an answer under its id. -/
theorem asks_of_line (hid : id < Word.bound) (hparams : Message.plainParams q.params = true) :
    Asks (q.line id) id (messageOf q id) := by
  have hplain : (Message.request { id, method := q.method, params := q.params }).plain = true := by
    simp [Message.plain, hid, hparams]
  obtain ⟨hintegral, hdepth⟩ := Message.document_of_plain hplain
  have hparse : Json.parse (Text.trim (q.line id)) = .ok (messageOf q id) := by
    rw [Inquiry.line, Wire.Request.toJson, trim_print_obj]
    exact Json.parse_print hintegral hdepth
  refine ⟨hparse, ?_⟩
  rw [requestId?, messageOf, Message.canonical_request]
  simp [Json.get?, Json.nat, Json.asNat?]

theorem method_messageOf : textMember (messageOf q id) "method" = q.method := by
  rw [textMember, messageOf, Message.canonical_request]
  simp [Json.getD, Json.get?, List.lookup_cons, Json.asString?]

theorem params_messageOf {params : Json} (h : q.params = some params) :
    (messageOf q id).getD "params" = params.canonical := by
  rw [messageOf, Message.canonical_request, h]
  simp [Json.getD, Json.get?, List.lookup_cons, Json.member?]

end Requests

/-! ## Answers -/

/-- The server answers the line of an inquiry with a response that is well-shaped. -/
structure AnswersWith (isThere : String → Bool) (s : State) (q : Inquiry) (id : Nat)
    (r : Wire.Response) : Prop where
  lines : ∃ notes reply, (answerLine isThere s (q.line id)).2 = some (notes ++ [reply]) ∧
    (∀ note ∈ notes, IsNote note) ∧ responseOf (.ok (.line reply)) = some r
  carried : r.id = id
  shape : r.misshape = none

/-- The tools, as a client reads them. -/
def offered : List Wire.Tool := tools.map fun t => { t with inputSchema := t.inputSchema.canonical }

/-- The inquiry of a call. -/
def callInquiry (tool : String) (arguments : Json) : Inquiry :=
  { purpose := .answer, method := Wire.callMethod,
    params := some (Wire.ToolCall.toJson { name := tool, arguments }) }

/-- Arguments whose call has a faithful text: no doubles, and room for the levels around them. -/
structure Modest (arguments : Json) : Prop where
  integral : arguments.integral = true
  depth : arguments.depth + 1 < Json.nestingLimit

theorem plainParams_of_modest {arguments : Json} (h : Modest arguments) (tool : String) :
    Message.plainParams (callInquiry tool arguments).params = true := by
  have hdepth := h.depth
  simp only [Json.nestingLimit] at hdepth
  simp [Message.plainParams, callInquiry, Wire.ToolCall.toJson, Json.integral, Json.integralMembers,
    Json.depth, Json.depthMembers, Json.nestingLimit, h.integral]
  omega

theorem modest_projectArgument (path : String) : Modest (Suite.projectArgument path) where
  integral := by simp [Suite.projectArgument, Json.integral, Json.integralMembers]
  depth := by simp [Suite.projectArgument, Json.depth, Json.depthMembers, Json.nestingLimit]

theorem modest_classArguments (name path : String) : Modest (Suite.classArguments name path) where
  integral := by simp [Suite.classArguments, Json.integral, Json.integralMembers]
  depth := by simp [Suite.classArguments, Json.depth, Json.depthMembers, Json.nestingLimit]

section Answers

variable {isThere : String → Bool} {s s' : State} {q : Inquiry} {id : Nat} {r : Wire.Response}
variable {tool : String} {arguments : Json}

theorem answersWith_of_handle (hid : id < Word.bound)
    (hparams : Message.plainParams q.params = true)
    (hhandle : handle isThere s (messageOf q id) = (s', .reply r)) (hr : Replies id r) :
    AnswersWith isThere s q id r.canonical := by
  obtain ⟨notes, hanswer, hnotes⟩ :=
    answerLine_of_reply (asks_of_line hid hparams).parsed hhandle
  obtain ⟨hread, hshape, hcarried⟩ := hr.read hid
  exact ⟨⟨notes, _, by rw [hanswer], hnotes, hread⟩, hcarried, hshape⟩

theorem handle_messageOf (hid : id < Word.bound) (hparams : Message.plainParams q.params = true) :
    handle isThere s (messageOf q id)
      = handleRequest isThere s id q.method ((messageOf q id).getD "params") := by
  have hrequest := (asks_of_line hid hparams).requested
  rw [requestId?] at hrequest
  rw [handle, hrequest]
  dsimp only
  rw [method_messageOf]

theorem toolsOf_offered (id : Nat) :
    toolsOf (Wire.Response.ok id (.obj [("tools", Wire.toolsJson tools)])).canonical = .ok offered := by
  rfl

/-- A listing names the tools. -/
theorem answers_listing (hs : s.flags.Sound) (hid : id < Word.bound) :
    ∃ r, AnswersWith isThere s toolsInquiry id r ∧
      toolsInquiry.gives r = .ok (.tools offered) := by
  have hparams : Message.plainParams toolsInquiry.params = true := by decide
  have hhandle : handle isThere s (messageOf toolsInquiry id)
      = (s, .reply (.ok id (.obj [("tools", Wire.toolsJson tools)]))) := by
    rw [handle_messageOf hid hparams, toolsInquiry, handleRequest, if_neg (by decide), if_pos rfl,
      hs.ids]
    rfl
  have hreplies : Replies id (.ok id (.obj [("tools", Wire.toolsJson tools)])) :=
    replies_ok id (by decide +kernel) (by decide +kernel)
  exact ⟨_, answersWith_of_handle hid hparams hhandle hreplies, gives_of_tools (toolsOf_offered id)⟩

/-- A call is answered, whatever tool is called with whatever arguments. -/
theorem answers_call (hs : s.flags.Sound) (hid : id < Word.bound) (harguments : Modest arguments) :
    ∃ r, AnswersWith isThere s (callInquiry tool arguments) id r := by
  have hparams := plainParams_of_modest harguments tool
  obtain ⟨s', r, hhandle, hanswered⟩ := @answered_of_handle isThere s _ _
    (asks_of_line hid hparams).requested (not_intercepts_of_sound hs)
  have hword : answeredWord s.flags (messageOf (callInquiry tool arguments) id) id = id :=
    if_neg fun h => Bool.false_ne_true (hs.ids.symm.trans h.1)
  exact ⟨_, answersWith_of_handle hid hparams hhandle (hword ▸ hanswered.replies)⟩

/-! ## Scans -/

/-- A result whose content is a list with a text. -/
structure IsScanReply (r : Wire.Response) : Prop where
  error : r.error = none
  list : Suite.Smoke.contentIsList r = true
  text : r.content.any (·.text.isSome) = true

theorem isScanReply_of_content {v : Json} (text : String)
    (h : v.canonical.get? "content" = some (.arr [(textItem text).canonical])) :
    IsScanReply (Wire.Response.ok id v).canonical := by
  have hcontent : (Wire.Response.ok id v).canonical.resultMember "content"
      = some (.arr [(textItem text).canonical]) := h
  refine ⟨rfl, ?_, ?_⟩
  · rw [Suite.Smoke.contentIsList, hcontent]
    rfl
  · rw [Wire.Response.content, hcontent]
    simp [textItem, Json.canonical, Json.lookup_canonical, List.lookup_cons, Wire.sequence,
      Wire.items, Wire.Content.decode, Wire.record, Wire.member, Wire.nullable]

theorem isScanReply_text (text : String) :
    IsScanReply (Wire.Response.ok id (textResult text)).canonical := by
  refine isScanReply_of_content text ?_
  simp [textResult, Json.canonical, Json.canonicalItems, Json.get?, Json.lookup_canonical]

theorem isScanReply_toolError (text : String) :
    IsScanReply (Wire.Response.ok id (toolError text)).canonical := by
  refine isScanReply_of_content text ?_
  simp [toolError, Json.canonical, Json.canonicalItems, Json.get?, Json.lookup_canonical]

/-- A scan of a path has a result, whether or not the path is there. -/
theorem scan_of_path {path : String}
    (h : (arguments.get? "projectPath").bind Json.asString? = some path) :
    ∃ s' v, scan isThere s id arguments = (s', .ok id v) ∧ Replies id (.ok id v) ∧
      IsScanReply (Wire.Response.ok id v).canonical := by
  unfold scan
  rw [h]
  dsimp only
  split_ifs
  · exact ⟨s, _, rfl, replies_toolError id _, isScanReply_toolError _⟩
  · exact ⟨_, _, rfl, replies_text id _, isScanReply_text _⟩

/-- A call for a scan of a path is answered with a result. -/
theorem answers_scan (hs : s.flags.Sound) (hid : id < Word.bound) (path : String) :
    ∃ r, AnswersWith isThere s
      (callInquiry "scan_dependencies" (Suite.projectArgument path)) id r ∧ IsScanReply r := by
  have hfree : none ≠ some "scan_dependencies" := nofun
  have hparams := plainParams_of_modest (modest_projectArgument path) "scan_dependencies"
  let params := (Wire.ToolCall.toJson
    { name := "scan_dependencies", arguments := Suite.projectArgument path }).canonical
  have hpath : ((params.getD "arguments").get? "projectPath").bind Json.asString? = some path := by
    simp [params, Wire.ToolCall.toJson, Suite.projectArgument, Json.canonical, Json.getD, Json.get?,
      Json.lookup_canonical, List.lookup_cons, Json.asString?]
  have hopen : Wire.callMethod ≠ Wire.openMethod := by decide
  have hlist : Wire.callMethod ≠ Wire.listMethod := by decide
  have htool : textMember params "name" = "scan_dependencies" := by
    simp [params, textMember, Wire.ToolCall.toJson, Json.canonical, Json.getD, Json.get?,
      Json.lookup_canonical, Json.asString?]
  obtain ⟨s', v, hscan, hreplies, hreply⟩ := @scan_of_path isThere s id _ _ hpath
  have hhandle : handle isThere s
      (messageOf (callInquiry "scan_dependencies" (Suite.projectArgument path)) id)
        = (s', .reply (.ok id v)) := by
    rw [handle_messageOf hid hparams, params_messageOf rfl, callInquiry, handleRequest,
      if_neg hopen, if_neg hlist, if_pos rfl, handleCall, htool, hs.exit, hs.hang,
      hs.garbage, if_neg hfree, if_neg hfree, if_neg hfree, callTool, if_pos rfl, hscan]
  exact ⟨_, answersWith_of_handle hid hparams hhandle hreplies, hreply⟩

end Answers

end Conformance.DemoServer
