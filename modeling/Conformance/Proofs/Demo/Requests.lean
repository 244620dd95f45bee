/-
Conformance — requests to the demonstration server.

A request that no flag intercepts is answered, and what that does is told field by field
(`Answered`): the answer carries the id, has a faithful line, and is a success, where the request
looks at a class, if the class is known and a scan was carried out before; the state changes only by
a scan that finds its path.  What a flag intercepts is not answered, and of two flags that name one
tool the earlier one counts (`handle_of_intercepted`).
-/
import Conformance.DemoServer.Server
import Conformance.Proofs.Wire.Reply

namespace Conformance.DemoServer

/-! ## What a line asks for -/

/-- The id under which a message asks for an answer. -/
def requestId? (message : Json) : Option Nat := (message.get? "id").bind Json.asNat?

/-- The tool that a message calls; a name that is missing or no text counts as empty. -/
def calledTool? (message : Json) : Option String :=
  if textMember message "method" = Wire.callMethod then
    some (textMember (message.getD "params") "name")
  else none

/-- An argument of a call, if it is a text. -/
def argument? (message : Json) (key : String) : Option String :=
  (((message.getD "params").getD "arguments").get? key).bind Json.asString?

/-- A line that asks for an answer under an id. -/
structure Asks (line : String) (id : Nat) (message : Json) : Prop where
  parsed : Json.parse (Text.trim line) = .ok message
  requested : requestId? message = some id

/-- One of the flags names the tool that is called. -/
def Flags.Intercepts (flags : Flags) (message : Json) : Prop :=
  ∃ tool, calledTool? message = some tool ∧
    (flags.exitOn = some tool ∨ flags.hangOn = some tool ∨ flags.garbageOn = some tool)

/-- The message calls for a scan of a path that is there. -/
def ScansPath (isThere : String → Bool) (message : Json) : Prop :=
  calledTool? message = some "scan_dependencies" ∧
    ∃ path, argument? message "projectPath" = some path ∧ path ≠ "" ∧ isThere path = true

/-- A line that calls for a scan which nothing keeps the server from. -/
def CarriesOutScan (isThere : String → Bool) (flags : Flags) (line : String) : Prop :=
  ∃ id message, Asks line id message ∧ ¬ flags.Intercepts message ∧ ScansPath isThere message

/-- A look at the class of that name. -/
def LooksAt (message : Json) (name : String) : Prop :=
  (calledTool? message = some "decompile_class" ∨ calledTool? message = some "analyze_class") ∧
    argument? message "className" = some name

/-! ## Answers -/

/-- The tool did its work. -/
def Succeeds (r : Wire.Response) : Prop := r.isSuccess = true ∧ r.isToolError = false

/-- A response for an id, whose line is faithful. -/
structure Replies (id : Nat) (r : Wire.Response) : Prop where
  carried : r.id = id
  shape : r.misshape = none
  plain : id < Word.bound → r.Plain

theorem replies_ok (id : Nat) {v : Json} (hv : v.integral = true)
    (hd : v.depth < Json.nestingLimit) : Replies id (.ok id v) where
  carried := rfl
  shape := rfl
  plain hid :=
    { id := hid
      result := fun u hu => by
        cases hu
        exact ⟨hv, hd⟩
      error := nofun }

theorem replies_err (id : Nat) {e : Wire.RpcError} (he : Wire.IsSignedWord e.code)
    (hdata : e.data = none) : Replies id (.err id e) where
  carried := rfl
  shape := rfl
  plain hid :=
    { id := hid
      result := nofun
      error := fun e' he' => by
        cases he'
        exact ⟨he, hdata⟩ }

theorem replies_text (id : Nat) (text : String) : Replies id (.ok id (textResult text)) :=
  replies_ok id (by simp [textResult, textItem, Json.integral, Json.integralMembers,
      Json.integralItems])
    (by simp [textResult, textItem, Json.depth, Json.depthMembers, Json.depthItems,
      Json.nestingLimit])

theorem replies_toolError (id : Nat) (text : String) : Replies id (.ok id (toolError text)) :=
  replies_ok id (by simp [toolError, textItem, Json.integral, Json.integralMembers,
      Json.integralItems])
    (by simp [toolError, textItem, Json.depth, Json.depthMembers, Json.depthItems,
      Json.nestingLimit])

theorem succeeds_text (id : Nat) (text : String) :
    Succeeds (Wire.Response.ok id (textResult text)).canonical := by
  refine ⟨rfl, ?_⟩
  simp [Wire.Response.ok, Wire.Response.canonical, Wire.Response.isToolError,
    Wire.Response.resultMember, textResult, Json.canonical, Json.get?, Json.lookup_canonical,
    List.lookup_cons]

theorem not_succeeds_toolError (id : Nat) (text : String) :
    ¬ Succeeds (Wire.Response.ok id (toolError text)).canonical := by
  rintro ⟨_, hfine⟩
  simp [Wire.Response.ok, Wire.Response.canonical, Wire.Response.isToolError,
    Wire.Response.resultMember, toolError, Json.canonical, Json.get?, Json.lookup_canonical,
    List.lookup_cons, Json.asBool?] at hfine

/-- The line of an answer is read as that answer. -/
theorem Replies.read {id : Nat} {r : Wire.Response} (h : Replies id r) (hid : id < Word.bound) :
    responseOf (.ok (.line r.toJson.printSorted)) = some r.canonical ∧
      r.canonical.misshape = none ∧ r.canonical.id = id :=
  ⟨Wire.Response.responseOf_line (h.plain hid), by simpa using h.shape, by simpa using h.carried⟩

/-! ## Requests -/

section Requests

variable {isThere : String → Bool} {s : State} {id : Nat} {message params arguments : Json}
variable {tool method : String}

theorem scan_spec : Replies id (scan isThere s id arguments).2 ∧
    (scan isThere s id arguments).1.flags = s.flags ∧
    ((scan isThere s id arguments).1.scanned = true ↔ s.scanned = true ∨
      ∃ path, (arguments.get? "projectPath").bind Json.asString? = some path ∧ path ≠ "" ∧
        isThere path = true) := by
  unfold scan
  split
  · rename_i hnone
    exact ⟨replies_err id (by decide) rfl, rfl, by simp [hnone]⟩
  · rename_i path hpath
    split_ifs with hmissing
    · refine ⟨replies_toolError id _, rfl, ?_⟩
      simp only [hpath, Option.some.injEq, exists_eq_left', String.isEmpty_iff, Bool.or_eq_true,
        Bool.not_eq_true'] at hmissing ⊢
      grind
    · refine ⟨replies_text id _, rfl, ?_⟩
      simp only [hpath, Option.some.injEq, exists_eq_left', String.isEmpty_iff, Bool.or_eq_true,
        Bool.not_eq_true'] at hmissing ⊢
      grind

theorem lookAt_replies : Replies id (lookAt s id tool arguments) := by
  unfold lookAt
  split
  · exact replies_err id (by decide) rfl
  · split_ifs
    · exact replies_toolError id _
    · exact replies_toolError id _
    · exact replies_text id _

/-- A look at a class succeeds if the class is known and a scan was carried out. -/
theorem succeeds_lookAt_iff {name : String}
    (h : (arguments.get? "className").bind Json.asString? = some name) :
    Succeeds (lookAt s id tool arguments).canonical ↔ name ∈ knownClasses ∧ s.scanned = true := by
  unfold lookAt
  rw [h]
  dsimp only
  split_ifs with hscan hknown
  · simp only [not_succeeds_toolError, false_iff, not_and]
    exact fun _ => by simpa using hscan
  · simp only [not_succeeds_toolError, false_iff, not_and]
    exact fun hmem => absurd hmem (by simpa using hknown)
  · simp only [succeeds_text, true_iff]
    exact ⟨by simpa using hknown, by simpa using hscan⟩

/-- The word that the answer carries as its id. -/
def answeredWord (flags : Flags) (message : Json) (id : Nat) : Nat :=
  if flags.wrongId = true ∧ textMember message "method" = Wire.listMethod then
    (id + wrongIdOffset) % Word.bound
  else id

/-- What a request leads to that no flag intercepts. -/
structure Answered (isThere : String → Bool) (s : State) (id : Nat) (message : Json) (s' : State)
    (r : Wire.Response) : Prop where
  replies : Replies (answeredWord s.flags message id) r
  flags : s'.flags = s.flags
  scanned : s'.scanned = true ↔ s.scanned = true ∨ ScansPath isThere message
  looks : ∀ name, LooksAt message name →
    (Succeeds r.canonical ↔ name ∈ knownClasses ∧ s.scanned = true)

theorem calledTool?_of_ne (h : textMember message "method" ≠ Wire.callMethod) :
    calledTool? message = none := if_neg h

theorem calledTool?_of_call (h : textMember message "method" = Wire.callMethod) :
    calledTool? message = some (textMember (message.getD "params") "name") := if_pos h

/-- What is no call leaves the state, and looks at no class. -/
theorem answered_of_no_call {r : Wire.Response} {word : Nat} (h : calledTool? message = none)
    (hword : answeredWord s.flags message id = word) (hr : Replies word r) :
    Answered isThere s id message s r where
  replies := by
    rw [hword]
    exact hr
  flags := rfl
  scanned := by simp [ScansPath, h]
  looks name hlook := by simp [LooksAt, h] at hlook

theorem answered_of_call (hmethod : textMember message "method" = Wire.callMethod) :
    Answered isThere s id message
      (callTool isThere s id (textMember (message.getD "params") "name")
        ((message.getD "params").getD "arguments")).1
      (callTool isThere s id (textMember (message.getD "params") "name")
        ((message.getD "params").getD "arguments")).2 := by
  have hcalled := calledTool?_of_call hmethod
  have hid : answeredWord s.flags message id = id :=
    if_neg fun h => absurd (hmethod.symm.trans h.2) (by decide)
  generalize textMember (message.getD "params") "name" = tool at hcalled
  unfold callTool
  split_ifs with hscan hlook
  · subst hscan
    obtain ⟨hreplies, hflags, hscanned⟩ := @scan_spec isThere s id
      ((message.getD "params").getD "arguments")
    refine ⟨by rwa [hid], hflags, hscanned.trans (or_congr_right ?_), fun name hname => ?_⟩
    · simp [ScansPath, hcalled, argument?]
    · simp [LooksAt, hcalled] at hname
  · refine ⟨by rw [hid]; exact lookAt_replies, rfl, ?_,
      fun name hname => succeeds_lookAt_iff hname.2⟩
    simp [ScansPath, hcalled, hscan]
  · obtain ⟨hdecompile, hanalyze⟩ := not_or.mp hlook
    have hreplies : Replies id (.err id (.invalidParams ("Unknown tool: " ++ tool))) :=
      replies_err id (show Wire.IsSignedWord (-32602) by decide) rfl
    refine ⟨by rwa [hid], rfl, ?_, fun name hname => ?_⟩
    · simp [ScansPath, hcalled, hscan]
    · simp [LooksAt, hcalled, hdecompile, hanalyze] at hname

theorem integral_tools : (Json.obj [("tools", Wire.toolsJson tools)]).integral = true := by
  decide +kernel

theorem depth_tools : (Json.obj [("tools", Wire.toolsJson tools)]).depth < Json.nestingLimit := by
  decide +kernel

/-- A request that no flag intercepts is answered. -/
theorem answered_of_handle (hid : requestId? message = some id)
    (hfree : ¬ s.flags.Intercepts message) :
    ∃ s' r, handle isThere s message = (s', .reply r) ∧ Answered isThere s id message s' r := by
  have hrequest : handle isThere s message =
      handleRequest isThere s id (textMember message "method") (message.getD "params") := by
    rw [requestId?] at hid
    rw [handle, hid]
  rw [hrequest, handleRequest]
  by_cases hopen : textMember message "method" = Wire.openMethod
  · have hcalled : calledTool? message = none :=
      calledTool?_of_ne fun h => absurd (hopen.symm.trans h) (by decide)
    have hword : answeredWord s.flags message id = id :=
      if_neg fun h => absurd (hopen.symm.trans h.2) (by decide)
    rw [if_pos hopen]
    split_ifs with hrefuse
    · exact ⟨s, _, rfl, answered_of_no_call hcalled hword (replies_err id (by decide) rfl)⟩
    · exact ⟨s, _, rfl, answered_of_no_call hcalled hword
        (replies_ok id (by decide +kernel) (by decide +kernel))⟩
  rw [if_neg hopen]
  by_cases hlist : textMember message "method" = Wire.listMethod
  · have hcalled : calledTool? message = none :=
      calledTool?_of_ne fun h => absurd (hlist.symm.trans h) (by decide)
    have hword : answeredWord s.flags message id =
        if s.flags.wrongId = true then (id + wrongIdOffset) % Word.bound else id := by
      simp [answeredWord, hlist]
    rw [if_pos hlist]
    exact ⟨s, _, rfl, answered_of_no_call hcalled hword (replies_ok _ integral_tools depth_tools)⟩
  rw [if_neg hlist]
  by_cases hcall : textMember message "method" = Wire.callMethod
  · have hcalled := calledTool?_of_call hcall
    obtain ⟨hexit, hhang, hgarbage⟩ : s.flags.exitOn ≠ some _ ∧ s.flags.hangOn ≠ some _ ∧
        s.flags.garbageOn ≠ some _ := by
      refine ⟨fun h => hfree ⟨_, hcalled, .inl h⟩, fun h => hfree ⟨_, hcalled, .inr (.inl h)⟩,
        fun h => hfree ⟨_, hcalled, .inr (.inr h)⟩⟩
    rw [if_pos hcall, handleCall, if_neg hexit, if_neg hhang, if_neg hgarbage]
    exact ⟨_, _, rfl, answered_of_call hcall⟩
  · rw [if_neg hcall]
    have hword : answeredWord s.flags message id = id := if_neg fun h => hlist h.2
    exact ⟨s, _, rfl, answered_of_no_call (calledTool?_of_ne hcall) hword
      (replies_err id (show Wire.IsSignedWord (-32601) by decide) rfl)⟩

/-- What a call leads to that a flag intercepts: of two flags the earlier one counts. -/
theorem handle_of_intercepted (hid : requestId? message = some id)
    (hcalled : calledTool? message = some tool)
    (h : s.flags.exitOn = some tool ∨ s.flags.hangOn = some tool ∨
      s.flags.garbageOn = some tool) :
    handle isThere s message =
      (s, if s.flags.exitOn = some tool then .exit
        else if s.flags.hangOn = some tool then .silent else .garbage) := by
  have hmethod : textMember message "method" = Wire.callMethod := by
    by_contra hother
    exact nomatch (calledTool?_of_ne hother).symm.trans hcalled
  have htool : textMember (message.getD "params") "name" = tool :=
    Option.some.inj ((calledTool?_of_call hmethod).symm.trans hcalled)
  have hopen : Wire.callMethod ≠ Wire.openMethod := by decide
  have hlist : Wire.callMethod ≠ Wire.listMethod := by decide
  rw [requestId?] at hid
  rw [handle, hid]
  dsimp only
  rw [handleRequest, hmethod, if_neg hopen, if_neg hlist, if_pos rfl, handleCall, htool]
  by_cases hexit : s.flags.exitOn = some tool
  · rw [if_pos hexit, if_pos hexit]
  rw [if_neg hexit, if_neg hexit]
  by_cases hhang : s.flags.hangOn = some tool
  · rw [if_pos hhang, if_pos hhang]
  · rw [if_neg hhang, if_neg hhang, if_pos ((h.resolve_left hexit).resolve_left hhang)]

end Requests

end Conformance.DemoServer
