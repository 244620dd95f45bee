/-
Conformance — the law of a session with the demonstration server.

What the server writes for a line is told by the line, the flags and the lines before it (`Law`),
one clause for each kind of line.  The clauses exclude each other: what a flag intercepts has no
answer, and of the flags that name one tool, ending comes before hanging and hanging before
garbage.

Of the lines before, one thing counts: whether a scan was carried out among them (`CarriesOutScan`).
The server keeps that in one bit, which a line can only set (`state_of_answerLine`), and a look at
a class succeeds by that bit.  `session_law` carries the bit along the lines.

An id that is made wrong must still be a word, so under that flag the ids stay below the last
thousand words.
-/
import Conformance.Proofs.Demo.Requests

namespace Conformance.DemoServer

/-! ## What is written -/

/-- The id that the answer carries. -/
def answeredId (flags : Flags) (message : Json) (id : Nat) : Nat :=
  if flags.wrongId = true ∧ textMember message "method" = Wire.listMethod then id + wrongIdOffset
  else id

/-- A notification: a message with a method and without an id. -/
def IsNote (line : String) : Prop :=
  ∃ members method, Json.parse (Text.trim line) = .ok (.obj members) ∧
    members.lookup "method" = some (.str method) ∧ members.lookup "id" = none

/-- What stands before an answer. -/
def Notes (flags : Flags) (notes : List String) : Prop :=
  if flags.notify then ∃ note, notes = [note] ∧ IsNote note else notes = []

/-- The answer to a line that is no JSON: an error for no id. -/
def IsParseErrorReply (e : Json.ParseError) (line : String) : Prop :=
  ∃ v error, Json.parse (Text.trim line) = .ok v ∧ v.get? "method" = none ∧
    v.get? "id" = some .null ∧ v.get? "result" = none ∧
    v.get? "error" = some error ∧ Wire.RpcError.decode error = .ok (.parseError e.message)

/-- What the server writes for a line after earlier ones; `none` is the end. -/
inductive Law (isThere : String → Bool) (flags : Flags) (earlier : List String) (line : String) :
    Option (List String) → Prop
  | blank : IsBlankText line → Law isThere flags earlier line (some [])
  | noJson {e : Json.ParseError} {reply : String} : ¬ IsBlankText line →
      Json.parse (Text.trim line) = .error e → IsParseErrorReply e reply →
      Law isThere flags earlier line (some [reply])
  | noRequest {message : Json} : Json.parse (Text.trim line) = .ok message →
      requestId? message = none → Law isThere flags earlier line (some [])
  | exit {id : Nat} {message : Json} {tool : String} : Asks line id message →
      calledTool? message = some tool → flags.exitOn = some tool →
      Law isThere flags earlier line none
  | hang {id : Nat} {message : Json} {tool : String} : Asks line id message →
      calledTool? message = some tool → flags.exitOn ≠ some tool → flags.hangOn = some tool →
      Law isThere flags earlier line (some [])
  | garbage {id : Nat} {message : Json} {tool text : String} {e : Json.ParseError} :
      Asks line id message → calledTool? message = some tool → flags.exitOn ≠ some tool →
      flags.hangOn ≠ some tool → flags.garbageOn = some tool →
      Json.parse (Text.trim text) = .error e →
      Law isThere flags earlier line (some [text])
  | answer {id : Nat} {message : Json} {notes : List String} {reply : String}
      {r : Wire.Response} : Asks line id message → ¬ flags.Intercepts message → Notes flags notes →
      responseOf (.ok (.line reply)) = some r → r.misshape = none →
      r.id = answeredId flags message id →
      (∀ name, LooksAt message name →
        (Succeeds r ↔ name ∈ knownClasses ∧
          ∃ before ∈ earlier, CarriesOutScan isThere flags before)) →
      Law isThere flags earlier line (some (notes ++ [reply]))

/-! ## Lines -/

section Lines

variable {isThere : String → Bool} {s : State} {line : String} {message : Json} {id : Nat}

theorem isNote_noteLine (message : Json) : IsNote (noteLine message) := by
  have hparse := @parse_line_obj
    [("jsonrpc", .str Wire.rpcVersion), ("method", .str "notifications/message"),
      ("params", .obj [("level", .str "info"),
        ("data", .str ("handling " ++ (message.getD "method").print))])]
    (by simp [Json.integral, Json.integralMembers])
    (by simp [Json.depth, Json.depthMembers, Json.nestingLimit])
  refine ⟨_, "notifications/message", hparse, ?_, ?_⟩ <;>
    simp [Json.lookup_canonical, List.lookup_cons, Json.canonical]

theorem isParseErrorReply_parseErrorLine (e : Json.ParseError) :
    IsParseErrorReply e (parseErrorLine e) := by
  have hcode : Json.Number.isWord (.int (-32700)) = true := by decide
  have hparse := @parse_line_obj
    [("jsonrpc", .str Wire.rpcVersion), ("id", .null),
      ("error", (Wire.RpcError.parseError e.message).toJson)]
    (by simp [Json.integral, Json.integralMembers, Wire.RpcError.toJson, Wire.RpcError.parseError,
      Json.int, Json.member?, hcode])
    (by simp [Json.depth, Json.depthMembers, Wire.RpcError.toJson, Wire.RpcError.parseError,
      Json.int, Json.member?, Json.nestingLimit])
  have hdecode : Wire.RpcError.decode (Wire.RpcError.parseError e.message).toJson.canonical
      = .ok (.parseError e.message) :=
    Wire.RpcError.faithful.decode_document (.parseError e.message)
      ⟨show Wire.IsSignedWord (-32700) by decide, fun d hd => by cases hd⟩
  refine ⟨_, _, hparse, ?_, ?_, ?_, ?_, hdecode⟩ <;>
    simp [Json.canonical, Json.get?, Json.lookup_canonical, List.lookup_cons]

theorem notes_of_flags (flags : Flags) (message : Json) :
    Notes flags (if flags.notify then [noteLine message] else []) := by
  unfold Notes
  split_ifs
  · exact ⟨_, rfl, isNote_noteLine message⟩
  · rfl

theorem answerLine_of_blank (h : IsBlankText line) : answerLine isThere s line = (s, some []) := by
  simp only [answerLine, trim_isEmpty_iff.mpr h, if_true]

theorem answerLine_of_noJson {e : Json.ParseError} (hb : ¬ IsBlankText line)
    (h : Json.parse (Text.trim line) = .error e) :
    answerLine isThere s line = (s, some [parseErrorLine e]) := by
  simp only [answerLine, trim_isEmpty_of_not_blank hb, Bool.false_eq_true, if_false, h]

theorem answerLine_of_message (h : Json.parse (Text.trim line) = .ok message) :
    answerLine isThere s line = answer isThere s message := by
  have hb : ¬ IsBlankText line := not_blank_of_parse h
  simp only [answerLine, trim_isEmpty_of_not_blank hb, Bool.false_eq_true, if_false, h]

theorem handle_of_noRequest (h : requestId? message = none) :
    handle isThere s message = (s, .silent) := by
  rw [requestId?] at h
  rw [handle, h]

/-- The id of a request is a word. -/
theorem Asks.lt_bound (h : Asks line id message) : id < Word.bound := by
  obtain ⟨v, hv, hn⟩ := Option.bind_eq_some_iff.mp h.requested
  exact Json.lt_of_asNat? (Json.inWords_of_get? (Json.inWords_of_parse h.parsed) hv) hn

theorem asks_unique {id' : Nat} {message' : Json} (h : Asks line id message)
    (h' : Asks line id' message') : id' = id ∧ message' = message := by
  cases Except.ok.inj (h.parsed.symm.trans h'.parsed)
  exact ⟨Option.some.inj (h'.requested.symm.trans h.requested), rfl⟩

/-- Of a line that asks, its message says whether a scan is carried out. -/
theorem carriesOutScan_iff (h : Asks line id message) (flags : Flags) :
    CarriesOutScan isThere flags line ↔ ¬ flags.Intercepts message ∧ ScansPath isThere message := by
  constructor
  · rintro ⟨id', message', hasks, hscan⟩
    obtain ⟨_, rfl⟩ := asks_unique h hasks
    exact hscan
  · exact fun hscan => ⟨id, message, h, hscan⟩

/-- The five kinds of line. -/
inductive Kind (flags : Flags) (line : String) : Prop where
  | blank : IsBlankText line → Kind flags line
  | noJson {e : Json.ParseError} : ¬ IsBlankText line → Json.parse (Text.trim line) = .error e →
      Kind flags line
  | noRequest {message : Json} : Json.parse (Text.trim line) = .ok message →
      requestId? message = none → Kind flags line
  | intercepted {id : Nat} {message : Json} : Asks line id message → flags.Intercepts message →
      Kind flags line
  | free {id : Nat} {message : Json} : Asks line id message → ¬ flags.Intercepts message →
      Kind flags line

theorem kind_of_line (flags : Flags) (line : String) : Kind flags line := by
  by_cases hblank : IsBlankText line
  · exact .blank hblank
  cases hparse : Json.parse (Text.trim line) with
  | error e => exact .noJson hblank hparse
  | ok message =>
      cases hid : requestId? message with
      | none => exact .noRequest hparse hid
      | some id =>
          by_cases hfree : flags.Intercepts message
          · exact .intercepted ⟨hparse, hid⟩ hfree
          · exact .free ⟨hparse, hid⟩ hfree

/-- A line keeps the flags, and the server remembers of it only a scan that was carried out. -/
theorem state_of_answerLine :
    (answerLine isThere s line).1.flags = s.flags ∧
      ((answerLine isThere s line).1.scanned = true ↔
        s.scanned = true ∨ CarriesOutScan isThere s.flags line) := by
  have hidle : ∀ {out : Option (List String)}, answerLine isThere s line = (s, out) →
      ¬ CarriesOutScan isThere s.flags line →
      (answerLine isThere s line).1.flags = s.flags ∧
        ((answerLine isThere s line).1.scanned = true ↔
          s.scanned = true ∨ CarriesOutScan isThere s.flags line) := by
    intro out hanswer hnone
    rw [hanswer]
    exact ⟨rfl, by simp [hnone]⟩
  cases kind_of_line s.flags line with
  | blank hblank =>
      refine hidle (answerLine_of_blank hblank) ?_
      rintro ⟨id, message, hasks, _⟩
      exact not_blank_of_parse hasks.parsed hblank
  | noJson hblank hparse =>
      refine hidle (answerLine_of_noJson hblank hparse) ?_
      rintro ⟨id, message, hasks, _⟩
      exact nomatch hparse.symm.trans hasks.parsed
  | noRequest hparse hid =>
      refine hidle (by rw [answerLine_of_message hparse, answer, handle_of_noRequest hid]) ?_
      rintro ⟨id, message, hasks, _⟩
      cases Except.ok.inj (hparse.symm.trans hasks.parsed)
      exact nomatch hid.symm.trans hasks.requested
  | intercepted hasks hflag =>
      have hnone : ¬ CarriesOutScan isThere s.flags line := fun hscan =>
        ((carriesOutScan_iff hasks s.flags).mp hscan).1 hflag
      obtain ⟨tool, hcalled, hwhich⟩ := hflag
      rw [answerLine_of_message hasks.parsed, answer,
        handle_of_intercepted hasks.requested hcalled hwhich]
      split_ifs <;> exact ⟨rfl, by simp [hnone]⟩
  | free hasks hfree =>
      obtain ⟨s', r, hhandle, hanswered⟩ :=
        @answered_of_handle isThere s _ _ hasks.requested hfree
      rw [answerLine_of_message hasks.parsed, answer, hhandle, carriesOutScan_iff hasks]
      exact ⟨hanswered.flags, by simpa [hfree] using hanswered.scanned⟩

/-- What is written for a line, when the server has seen the scans among the earlier ones. -/
theorem law_of_answerLine {earlier : List String}
    (hseen : s.scanned = true ↔ ∃ before ∈ earlier, CarriesOutScan isThere s.flags before)
    (hroom : s.flags.wrongId = true → ∀ id message, Asks line id message →
      id + wrongIdOffset < Word.bound) :
    Law isThere s.flags earlier line (answerLine isThere s line).2 := by
  cases kind_of_line s.flags line with
  | blank hblank =>
      rw [answerLine_of_blank hblank]
      exact .blank hblank
  | noJson hblank hparse =>
      rw [answerLine_of_noJson hblank hparse]
      exact .noJson hblank hparse (isParseErrorReply_parseErrorLine _)
  | noRequest hparse hid =>
      rw [answerLine_of_message hparse, answer, handle_of_noRequest hid]
      exact .noRequest hparse hid
  | intercepted hasks hflag =>
      obtain ⟨tool, hcalled, hwhich⟩ := hflag
      rw [answerLine_of_message hasks.parsed, answer,
        handle_of_intercepted hasks.requested hcalled hwhich]
      split_ifs with hexit hhang
      · exact .exit hasks hcalled hexit
      · exact .hang hasks hcalled hexit hhang
      · exact .garbage hasks hcalled hexit hhang
          ((hwhich.resolve_left hexit).resolve_left hhang) rfl
  | @free id message hasks hfree =>
      obtain ⟨s', r, hhandle, hanswered⟩ :=
        @answered_of_handle isThere s _ _ hasks.requested hfree
      have hword : answeredWord s.flags message id = answeredId s.flags message id ∧
          answeredId s.flags message id < Word.bound := by
        unfold answeredWord answeredId
        split_ifs with hwrong
        · have hlt := hroom hwrong.1 id message hasks
          exact ⟨Nat.mod_eq_of_lt hlt, hlt⟩
        · exact ⟨rfl, hasks.lt_bound⟩
      obtain ⟨hread, hshape, hid⟩ := hanswered.replies.read (hword.1 ▸ hword.2)
      rw [answerLine_of_message hasks.parsed, answer, hhandle]
      dsimp only
      rw [hanswered.flags]
      exact .answer hasks hfree (notes_of_flags s.flags message) hread hshape (hid.trans hword.1)
        fun name hlook => (hanswered.looks name hlook).trans (and_congr_right fun _ => hseen)

end Lines

/-! ## Sessions -/

/-- What the server would write for each line if no line ended it. -/
def answers (isThere : String → Bool) : State → List String → List (Option (List String))
  | _, [] => []
  | s, line :: rest =>
      (answerLine isThere s line).2 :: answers isThere (answerLine isThere s line).1 rest

/-- The answers up to the end. -/
def written (outs : List (Option (List String))) : List String :=
  (outs.takeWhile Option.isSome).flatMap (·.getD [])

section Sessions

variable {isThere : String → Bool} {s : State} {lines : List String}

theorem session_eq : ∀ (s : State) (lines : List String),
    session isThere s (lines.map some) = (written (answers isThere s lines),
      if (answers isThere s lines).all Option.isSome then 0 else exitStatus)
  | _, [] => rfl
  | s, line :: rest => by
      have hrest := session_eq (answerLine isThere s line).1 rest
      rw [List.map_cons, session, answers]
      cases hanswer : answerLine isThere s line with
      | mk s' out =>
          rw [hanswer] at hrest
          cases out with
          | none => rfl
          | some out =>
              dsimp only
              rw [hrest]
              simp [written]

theorem law_of_answers {flags : Flags} : ∀ {lines earlier : List String} {s : State},
    s.flags = flags →
    (s.scanned = true ↔ ∃ before ∈ earlier, CarriesOutScan isThere flags before) →
    (flags.wrongId = true → ∀ line ∈ lines, ∀ id message, Asks line id message →
      id + wrongIdOffset < Word.bound) →
    ∀ i line, lines[i]? = some line → ∃ out, (answers isThere s lines)[i]? = some out ∧
      Law isThere flags (earlier ++ lines.take i) line out
  | [], _, _, _, _, _, _, _, h => nomatch h
  | first :: rest, earlier, s, hflags, hseen, hroom, 0, line, h => by
      cases h
      subst hflags
      rw [answers, List.take_zero, List.append_nil]
      refine ⟨_, List.getElem?_cons_zero, ?_⟩
      exact law_of_answerLine hseen fun hwrong => hroom hwrong first List.mem_cons_self
  | first :: rest, earlier, s, hflags, hseen, hroom, i + 1, line, h => by
      subst hflags
      obtain ⟨hflags, hscanned⟩ := @state_of_answerLine isThere s first
      have hseen' : (answerLine isThere s first).1.scanned = true ↔
          ∃ before ∈ earlier ++ [first], CarriesOutScan isThere s.flags before := by
        rw [hscanned, hseen]
        simp only [List.mem_append, List.mem_singleton, or_and_right, exists_or, exists_eq_left]
      obtain ⟨out, hout, hlaw⟩ := law_of_answers hflags hseen'
        (fun hwrong line hmem => hroom hwrong line (List.mem_cons_of_mem _ hmem)) i line h
      rw [answers, List.getElem?_cons_succ]
      refine ⟨out, hout, ?_⟩
      rwa [List.append_assoc, List.singleton_append] at hlaw

end Sessions

/-- Under every set of flags the server writes for each line, in order and until the first line that
ends it, what the law says for that line after the ones before; a session ends well unless a line
ends it. -/
theorem session_law (isThere : String → Bool) (flags : Flags) (lines : List String)
    (hroom : flags.wrongId = true → ∀ line ∈ lines, ∀ id message, Asks line id message →
      id + wrongIdOffset < Word.bound) :
    ∃ outs : List (Option (List String)), outs.length = lines.length ∧
      (∀ i line, lines[i]? = some line → ∃ out, outs[i]? = some out ∧
        Law isThere flags (lines.take i) line out) ∧
      session isThere { flags } (lines.map some) = ((outs.takeWhile Option.isSome).flatMap (·.getD []),
        if outs.all Option.isSome then 0 else exitStatus) := by
  refine ⟨answers isThere { flags } lines, ?_, fun i line h => ?_, session_eq _ _⟩
  · generalize ({ flags } : State) = s
    induction lines generalizing s with
    | nil => rfl
    | cons line rest ih =>
        rw [answers, List.length_cons, List.length_cons,
          ih fun hwrong l hl => hroom hwrong l (List.mem_cons_of_mem _ hl)]
  · exact @law_of_answers isThere flags lines [] { flags } rfl (by simp) hroom i line h

/-- A listing of the tools, a call without a name, and a call that two flags name. -/
def troubledLines : List String := [
  "\x7b\"id\":7,\"method\":\"tools/list\"\x7d",
  "\x7b\"id\":8,\"method\":\"tools/call\"\x7d",
  "\x7b\"id\":9,\"method\":\"tools/call\",\"params\":\x7b\"name\":\"analyze_class\"\x7d\x7d",
  "\x7b\"id\":10,\"method\":\"tools/list\"\x7d"]

def troubledFlags : Flags :=
  { hangOn := some "", exitOn := some "analyze_class", garbageOn := some "analyze_class",
    notify := true, wrongId := true }

/-- The first line is answered under a wrong id, with a notification before, and the third ends the
server although it was to be answered with garbage. -/
theorem session_law_of_troubled_server :
    (∀ line ∈ troubledLines, ∀ id message, Asks line id message →
      id + wrongIdOffset < Word.bound) ∧
    ∃ outs : List (Option (List String)),
      session (fun _ => false) { flags := troubledFlags } (troubledLines.map some)
        = ((outs.takeWhile Option.isSome).flatMap (·.getD []),
          if outs.all Option.isSome then 0 else exitStatus) ∧
      (∃ note reply r, outs[0]? = some (some [note, reply]) ∧ IsNote note ∧
        responseOf (.ok (.line reply)) = some r ∧ r.id = 1007) ∧
      outs[2]? = some none := by
  have hparsed : troubledLines.map (fun line => Json.parse (Text.trim line)) = [
      .ok (.obj [("id", .nat 7), ("method", .str "tools/list")]),
      .ok (.obj [("id", .nat 8), ("method", .str "tools/call")]),
      .ok (.obj [("id", .nat 9), ("method", .str "tools/call"),
        ("params", .obj [("name", .str "analyze_class")])]),
      .ok (.obj [("id", .nat 10), ("method", .str "tools/list")])] := rfl
  simp only [troubledLines, List.map_cons, List.map_nil, List.cons.injEq, and_true] at hparsed
  obtain ⟨hfirst, hsecond, hthird, hlast⟩ := hparsed
  have hlisting : Asks troubledLines[0] 7 _ := ⟨hfirst, rfl⟩
  have hcall : Asks troubledLines[2] 9 _ := ⟨hthird, rfl⟩
  have hroom : ∀ line ∈ troubledLines, ∀ id message, Asks line id message →
      id + wrongIdOffset < Word.bound := by
    intro line hline id message hasks
    simp only [troubledLines, List.mem_cons, List.not_mem_nil, or_false] at hline
    rcases hline with rfl | rfl | rfl | rfl
    · cases (asks_unique hlisting hasks).1
      decide
    · cases (asks_unique ⟨hsecond, rfl⟩ hasks).1
      decide
    · cases (asks_unique hcall hasks).1
      decide
    · cases (asks_unique ⟨hlast, rfl⟩ hasks).1
      decide
  refine ⟨hroom, ?_⟩
  obtain ⟨outs, _, hlaw, hsession⟩ :=
    session_law (fun _ => false) troubledFlags troubledLines fun _ => hroom
  refine ⟨outs, hsession, ?_, ?_⟩
  · obtain ⟨out, hout, hfirst⟩ := hlaw 0 _ rfl
    cases hfirst with
    | blank hblank => exact absurd hblank (not_blank_of_parse hlisting.parsed)
    | noJson _ hparse _ => exact nomatch hlisting.parsed.symm.trans hparse
    | noRequest hparse hnone =>
        cases Except.ok.inj (hlisting.parsed.symm.trans hparse)
        exact nomatch hnone
    | exit hasks hcalled _ | hang hasks hcalled _ _ | garbage hasks hcalled _ _ _ _ =>
        obtain ⟨_, rfl⟩ := asks_unique hlisting hasks
        exact nomatch hcalled
    | answer hasks _ hnotes hread _ hid _ =>
        obtain ⟨rfl, rfl⟩ := asks_unique hlisting hasks
        obtain ⟨note, rfl, hnote⟩ := hnotes
        exact ⟨note, _, _, hout, hnote, hread, hid⟩
  · obtain ⟨out, hout, hthird⟩ := hlaw 2 _ rfl
    have hcalled : calledTool? (.obj [("id", .nat 9), ("method", .str "tools/call"),
        ("params", .obj [("name", .str "analyze_class")])]) = some "analyze_class" := rfl
    cases hthird with
    | blank hblank => exact absurd hblank (not_blank_of_parse hcall.parsed)
    | noJson _ hparse _ => exact nomatch hcall.parsed.symm.trans hparse
    | noRequest hparse hnone =>
        cases Except.ok.inj (hcall.parsed.symm.trans hparse)
        exact nomatch hnone
    | exit _ _ _ => exact hout
    | hang hasks htool hgo _ | garbage hasks htool hgo _ _ _ =>
        obtain ⟨_, rfl⟩ := asks_unique hcall hasks
        cases Option.some.inj (hcalled.symm.trans htool)
        exact absurd rfl hgo
    | answer hasks hfree _ _ _ _ _ =>
        obtain ⟨_, rfl⟩ := asks_unique hcall hasks
        exact absurd ⟨_, hcalled, .inl rfl⟩ hfree

end Conformance.DemoServer
