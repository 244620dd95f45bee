/-
Conformance — how a session with the demonstration server is opened.

A sound server answers the opening request with what it says of itself, and nothing to the line
that tells it that the session is open.  So a client that has just been made finds the server
attending when it has connected (`run_of_connect`).
-/
import Conformance.Proofs.Demo.Answers

namespace Conformance.DemoServer

open Board

section Lines

variable {isThere : String → Bool} {s : State} {id : Nat}

theorem plainParams_openInquiry (o : ClientOptions) :
    Message.plainParams (openInquiry o).params = true := by
  simp [Message.plainParams, openInquiry, Wire.OpenParams.of, Wire.OpenParams.toJson,
    Wire.Capabilities.toJson, Wire.ClientInfo.toJson, Json.integral, Json.integralMembers,
    Json.depth, Json.depthMembers, Json.nestingLimit, Json.member?]

/-- The opening request is answered with what the server says of itself. -/
theorem answers_opening (hs : s.flags.Sound) (hid : id < Word.bound) (o : ClientOptions) :
    AnswersWith isThere s (openInquiry o) id (Wire.Response.ok id openResult).canonical := by
  have hparams := plainParams_openInquiry o
  have hhandle : handle isThere s (messageOf (openInquiry o) id) = (s, .reply (.ok id openResult)) := by
    rw [handle_messageOf hid hparams, openInquiry, handleRequest, if_pos rfl, hs.opens]
    rfl
  exact answersWith_of_handle hid hparams hhandle
    (replies_ok id (by decide +kernel) (by decide +kernel))

/-- What the server says of itself can be read. -/
theorem decode_openResult : ∃ info, Wire.OpenResult.decode openResult.canonical = .ok info :=
  ⟨_, rfl⟩

/-- The line that tells the server that the session is open asks for nothing. -/
theorem answerLine_of_announcement :
    answerLine isThere s Wire.Notification.opened.toJson.print = (s, some []) := by
  let announcement := Message.notification Wire.Notification.opened
  obtain ⟨hintegral, hdepth⟩ := Message.document_of_plain (m := announcement) rfl
  have hparse : Json.parse (Text.trim Wire.Notification.opened.toJson.print)
      = .ok Wire.Notification.opened.toJson.canonical := by
    rw [Wire.Notification.toJson, trim_print_obj]
    exact Json.parse_print hintegral hdepth
  have hid : requestId? Wire.Notification.opened.toJson.canonical = none := by
    rw [requestId?, Message.canonical_notification]
    rfl
  rw [answerLine_of_message hparse, answer, handle_of_noRequest hid]

end Lines

section Opening

variable {site : Site} {o : ClientOptions} {least lag : Duration} {flags : Flags}

/-- A client that is made ready with a fresh server is attended to. -/
theorem orderly_of_fresh (hflags : flags.Sound) :
    Orderly lag { conn := { state := .ready }, wire := Hosted.fresh flags } where
  state := rfl
  marks := nofun
  flags := hflags
  exits := rfl
  stopped := rfl
  stale := nofun
  sent := nofun
  soon := Nat.zero_le _

/-- A client that connects to a fresh server finds it attending. -/
theorem run_of_connect (ht : Timely site o least lag) (hflags : flags.Sound)
    (hclock : o.requestTimeout < clockEnd) :
    ∃ s', Board.run (hosted site) o .all none (passBound 1)
        (start { wire := Hosted.fresh flags } [{ work := .use .connect }])
          = (sole .connect s' none (.ended (.returned (.ok .done))), false) ∧
      Orderly lag s' ∧ s'.now ≤ lag ∧ s'.conn.lastId = 1 := by
  -- the lines and the wait are those of a session that is open already
  have hopen : Orderly lag { conn := { state := .ready }, wire := Hosted.fresh flags } :=
    orderly_of_fresh hflags
  obtain ⟨notes, reply, hout, hnotes, hread⟩ :=
    (@answers_opening site.isThere { flags } 1 hflags (by decide) o).lines
  have hwrite := write_of_orderly site hopen ((openInquiry o).line 1)
  have hs : Sends lag _ notes (some reply) _ := sends_of_answering ht.within hopen hout hnotes
  dsimp only at hwrite hs
  generalize (Hosted.fresh flags).answering site 0 ((openInquiry o).line 1) = sent at hwrite hs
  obtain ⟨info, hinfo⟩ := decode_openResult
  -- the client is told of the answer when all that was sent has been read
  have hread' := orderly_of_read hopen hs (.inl rfl) hs.later
  have hout' : (answerLine site.isThere sent.server Wire.Notification.opened.toJson.print).2
      = some ([] ++ Option.toList none) := by
    rw [answerLine_of_announcement]
    rfl
  have hwrite' := write_of_orderly site hread' Wire.Notification.opened.toJson.print
  have hs' : Sends lag _ [] none _ := sends_of_answering ht.within hread' hout'
    fun note hnote => by cases hnote
  dsimp only at hwrite' hs'
  generalize Hosted.answering site _ Wire.Notification.opened.toJson.print _ = heard at hwrite' hs'
  let asking : Connection := { lastId := 1, state := .opening, inFlight := some 1 }
  let final : Session Hosted :=
    { now := sent.latest
      conn := { lastId := 1, state := .ready, server := some info }
      wire := heard }
  have hsettled : asking.settled .opening (.answer (Wire.Response.ok 1 openResult).canonical)
      = ({ asking with inFlight := none },
        .next (.write (.announcement info) Wire.Notification.opened.toJson.print)) := by
    simp only [Connection.settled, Connection.opened, Wire.Response.canonical, Wire.Response.ok,
      Option.map_some, Option.getD_some, hinfo]
  have hrest : ∀ fuel p, drive (hosted site) o 0 (fuel + 3)
      (sole .connect
        { now := sent.latest
          conn := asking
          wire := (hosted site).take sent.latest sent.queue.length sent } (some 0) p)
      (asking.settled .opening (.answer (Wire.Response.ok 1 openResult).canonical))
        = sole .connect final none (.ended (.returned (.ok .done))) := by
    intro fuel p
    rw [hsettled, take_all]
    exact drive_announcement hwrite'
  have hbegin : ({} : Connection).begin o .connect
      = (asking, .next (.write (.request .opening 1) ((openInquiry o).line 1))) := rfl
  have hwait : _ = await 1 asking.abandoned o.requestTimeout (0 + o.requestTimeout) 0 sent.queue :=
    (await_of_sends hopen hs ht.waits hread rfl rfl).symm
  have hrun := (run_of_request (s := { wire := Hosted.fresh flags }) none hbegin hwrite
    (by rwa [Nat.zero_add]) (fun _ hd => by cases hd) hwait hrest).1 fun _ hd => by cases hd
  have hqueue : heard.queue = [] := hs'.queue
  refine ⟨final, hrun, ?_, by simpa using hs.soon, rfl⟩
  exact
    { state := rfl
      marks := fun _ hm => by cases hm
      flags := hs'.flags
      exits := hs'.exits
      stopped := hs'.stopped
      stale := by simp [final, hqueue]
      sent := by simp [final, hqueue]
      soon := hs'.soon }

end Opening

end Conformance.DemoServer
