/-
Conformance — a client that the demonstration server attends to.

Between two operations the session is open, the server is there, and of what it has sent and nobody
has read nothing can be taken for the answer to a later request: there are only notifications, and
answers to requests that were given up (`Orderly`).

An operation keeps this whatever its line is, if it runs to its end (`run_of_any`), since what
the server writes for a line is read up to its last line, the one that can decide.  An operation
whose answer is known gets it, and keeps it also where a deadline drops it (`run_of_answered`).
-/
import Conformance.Proofs.Demo.Notifications
import Conformance.Proofs.Session.Single

namespace Conformance

open Board

/-! ## A wait for the last of some items -/

section Wait

variable {id : Nat} {mark : Option Nat} {limit : Duration} {now : Instant}

/-- A wait takes all that comes in time, if only the last item can decide. -/
theorem await_up_to_last {pre : List Arrival} {last : Option Arrival}
    (hpre : ∀ a ∈ pre, Silent id mark a.item)
    (htimes : ∀ a ∈ pre ++ last.toList, a.time < now + limit) (hlimit : 0 < limit) :
    let w := await id mark limit (now + limit) now (pre ++ last.toList)
    w.taken = (pre ++ last.toList).length ∧
      (w.verdict = .refuse (.readTimeout limit) ∨
        ∃ a, last = some a ∧ judge id mark limit a.item = some w.verdict) := by
  have hearly : ∀ a ∈ pre, a.time < now + limit := fun a ha => htimes a (List.mem_append_left _ ha)
  have hnow : now < now + limit := Nat.lt_add_of_pos_right hlimit
  have hlatest := latest_lt hnow hearly
  dsimp only
  rw [await_append_silent hnow hpre hearly, List.length_append]
  cases last with
  | none => exact ⟨rfl, .inl rfl⟩
  | some a =>
      have ha : ¬ now + limit < a.time :=
        Nat.not_lt.mpr (Nat.le_of_lt (htimes a (List.mem_append_right _ List.mem_cons_self)))
      simp only [Option.toList_some, await, if_neg (Nat.not_le.mpr hlatest), if_neg ha]
      cases hj : judge id mark limit a.item with
      | none => exact ⟨rfl, .inl rfl⟩
      | some v => exact ⟨rfl, .inr ⟨a, rfl, hj⟩⟩

/-- A verdict that does not lose the session. -/
def Verdict.Mild (v : Verdict) : Prop :=
  ∀ e, v = .refuse e ∨ v = .misshapen e → e.isFatal = false

/-- What a line decides does not lose the session. -/
theorem mild_of_line {text : String} {v : Verdict}
    (h : judge id mark limit (.ok (.line text)) = some v) : v.Mild := by
  rintro e (rfl | rfl)
  · cases judge_eq_some_iff.mp h with
    | noJson | noResponse | foreign => rfl
  · cases judge_eq_some_iff.mp h with
    | misshapen => rfl

end Wait

/-- After a mild verdict the connection is as it was, but that nothing may be in flight. -/
theorem settled_of_mild (c : Connection) {purpose : Purpose} {v : Verdict}
    (hp : purpose ≠ .opening) (hv : v.Mild) : ∃ inFlight r,
      c.settled purpose v = ({ c with inFlight }, .ended r) ∧
        (inFlight = none ∨ inFlight = c.inFlight) := by
  have hstate : ∀ (c : Connection) e, e.isFatal = false → c.failedState purpose e = c.state := by
    intro c e he
    cases purpose with
    | opening => exact absurd rfl hp
    | answer | listing => simpa [Connection.failedState, he] using Eq.symm
  cases v with
  | answer r =>
      cases purpose with
      | opening => exact absurd rfl hp
      | answer | listing => exact ⟨none, _, rfl, .inl rfl⟩
  | misshapen e =>
      simp only [Connection.settled, Connection.fail_eq, hstate _ e (hv e (.inr rfl))]
      exact ⟨none, _, rfl, .inl rfl⟩
  | refuse e =>
      simp only [Connection.settled, Connection.fail_eq, hstate _ e (hv e (.inl rfl))]
      exact ⟨c.inFlight, _, rfl, .inr rfl⟩

namespace DemoServer

/-! ## A sound server -/

/-- No flag makes the server fail. -/
structure Flags.Sound (flags : Flags) : Prop where
  opens : flags.handshakeError = false
  garbage : flags.garbageOn = none
  hang : flags.hangOn = none
  exit : flags.exitOn = none
  ids : flags.wrongId = false

section Sound

variable {isThere : String → Bool} {s s' : State} {line : String} {message : Json}
variable {r : Wire.Response}

theorem not_intercepts_of_sound {flags : Flags} (h : flags.Sound) : ¬ flags.Intercepts message := by
  rintro ⟨tool, _, hexit | hhang | hgarbage⟩
  · exact nomatch h.exit.symm.trans hexit
  · exact nomatch h.hang.symm.trans hhang
  · exact nomatch h.garbage.symm.trans hgarbage

/-- The answer to a request stands behind notes. -/
theorem answerLine_of_reply (hparse : Json.parse (Text.trim line) = .ok message)
    (hhandle : handle isThere s message = (s', .reply r)) :
    ∃ notes, answerLine isThere s line = (s', some (notes ++ [r.toJson.printSorted])) ∧
      ∀ note ∈ notes, IsNote note := by
  refine ⟨if s'.flags.notify then [noteLine message] else [], ?_, fun note hmem => ?_⟩
  · rw [answerLine_of_message hparse, answer, hhandle]
  · split at hmem
    · cases List.mem_singleton.mp hmem
      exact isNote_noteLine message
    · cases hmem

/-- Whatever the line is, there is one line behind the notes at most. -/
theorem answerLine_of_sound (h : s.flags.Sound) (line : String) :
    ∃ notes last, (answerLine isThere s line).2 = some (notes ++ Option.toList last) ∧
      ∀ note ∈ notes, IsNote note := by
  cases kind_of_line s.flags line with
  | blank hblank => exact ⟨[], none, by rw [answerLine_of_blank hblank]; rfl, nofun⟩
  | noJson hblank hparse =>
      exact ⟨[], some _, by rw [answerLine_of_noJson hblank hparse]; rfl, nofun⟩
  | noRequest hparse hid =>
      refine ⟨[], none, ?_, nofun⟩
      rw [answerLine_of_message hparse, answer, handle_of_noRequest hid]
      rfl
  | intercepted _ hflag => exact absurd hflag (not_intercepts_of_sound h)
  | free hasks hfree =>
      obtain ⟨s', r, hhandle, _⟩ := @answered_of_handle isThere s _ _ hasks.requested hfree
      obtain ⟨notes, hanswer, hnotes⟩ := answerLine_of_reply hasks.parsed hhandle
      exact ⟨notes, some _, by rw [hanswer]; rfl, hnotes⟩

end Sound

/-! ## Between operations -/

/-- Every answer takes from `least` to `lag`, and the client waits longer. -/
structure Timely (site : Site) (o : ClientOptions) (least lag : Duration) : Prop where
  after : ∀ heard, least ≤ site.lag heard
  within : ∀ heard, site.lag heard ≤ lag
  waits : lag < o.requestTimeout

/-- The server attends to an open session; answers take no longer than `lag`. -/
structure Orderly (lag : Duration) (s : Session Hosted) : Prop where
  state : s.conn.state = .ready
  /-- The requests that were given up have been made. -/
  marks : ∀ m, s.conn.inFlight.or s.conn.abandoned = some m → m ≤ s.conn.lastId
  flags : s.wire.server.flags.Sound
  exits : s.wire.exits = none
  stopped : s.wire.stopped = false
  /-- What has not been read says nothing to the next request. -/
  stale : ∀ a ∈ s.wire.queue,
    Silent (s.conn.lastId + 1) (s.conn.inFlight.or s.conn.abandoned) a.item
  sent : ∀ a ∈ s.wire.queue, a.time ≤ s.wire.latest
  soon : s.wire.latest ≤ s.now + lag

section Orderly

variable {site : Site} {o : ClientOptions} {least lag : Duration} {s : Session Hosted}

theorem orderly_of_later (h : Orderly lag s) {now : Instant} (hnow : s.now ≤ now) :
    Orderly lag { s with now } :=
  ⟨h.state, h.marks, h.flags, h.exits, h.stopped, h.stale, h.sent,
    Nat.le_trans h.soon (Nat.add_le_add_right hnow lag)⟩

/-- The server is there. -/
theorem isThere_of_orderly (h : Orderly lag s) (now : Instant) : s.wire.isThere now = true := by
  simp [Hosted.isThere, h.exits, h.stopped]

theorem look_of_orderly (h : Orderly lag s) :
    look (hosted site) s .connected = (s, .connected true) := by
  rw [look, if_neg (by rw [h.state]; decide)]
  show (s, Reply.connected (s.wire.isThere s.now)) = _
  rw [isThere_of_orderly h]

/-- A line that is written is one to answer. -/
theorem write_of_orderly (site : Site) (h : Orderly lag s) (line : String) :
    (hosted site).write s.now line s.wire = .at s.now (s.wire.answering site s.now line, .ok ()) := by
  show Sending.at s.now (s.wire.receive site s.now line) = _
  rw [Hosted.receive, isThere_of_orderly h, h.exits]
  rfl

/-- What the server has to send when a line has been written to it: notes, and a last line. -/
structure Sends (lag : Duration) (s : Session Hosted) (notes : List String) (last : Option String)
    (sent : Hosted) : Prop where
  flags : sent.server.flags.Sound
  exits : sent.exits = none
  stopped : sent.stopped = false
  queue : sent.queue = s.wire.queue
    ++ (notes ++ last.toList).map fun l => { time := sent.latest, item := .ok (.line l) }
  notes : ∀ note ∈ notes, IsNote note
  before : s.wire.latest ≤ sent.latest
  later : s.now ≤ sent.latest
  soon : sent.latest ≤ s.now + lag

theorem sends_of_answering (hlag : ∀ heard, site.lag heard ≤ lag) (h : Orderly lag s)
    {line : String} {notes : List String} {last : Option String}
    (hout : (answerLine site.isThere s.wire.server line).2 = some (notes ++ last.toList))
    (hnotes : ∀ note ∈ notes, IsNote note) :
    Sends lag s notes last (s.wire.answering site s.now line) := by
  constructor
  · rw [Hosted.server_answering, (@state_of_answerLine site.isThere s.wire.server line).1]
    exact h.flags
  · rw [Hosted.exits_answering, hout]
    rfl
  · rw [Hosted.stopped_answering]
    exact h.stopped
  · rw [Hosted.queue_answering, Hosted.latest_answering, hout]
    rfl
  · exact hnotes
  · rw [Hosted.latest_answering]
    exact le_max_left _ _
  · rw [Hosted.latest_answering]
    exact Nat.le_trans (Nat.le_add_right _ _) (le_max_right _ _)
  · rw [Hosted.latest_answering]
    exact max_le h.soon (Nat.add_le_add_left (hlag _) _)

theorem after_of_answering (ht : Timely site o least lag) (line : String) :
    s.now + least ≤ (s.wire.answering site s.now line).latest := by
  rw [Hosted.latest_answering]
  exact Nat.le_trans (Nat.add_le_add_left (ht.after _) _) (le_max_right _ _)

/-! ## One operation -/

/-- What was silent stays so when one more request has been given up. -/
theorem silent_of_given_up {n : Nat} {mark : Option Nat} {item : Except ClientError Incoming}
    (hmark : ∀ m, mark = some m → m ≤ n) (h : Silent (n + 1) mark item) :
    Silent (n + 2) (some (n + 1)) item := by
  cases h with
  | blank hb => exact .blank hb
  | message hp hm => exact .message hp hm
  | late hr _ hm hle =>
      have hn := Nat.le_trans hle (hmark _ hm)
      exact .late hr (by omega) rfl (by omega)

/-- The connection when a request has started. -/
def asked (c : Connection) : Connection :=
  { c with
    lastId := c.lastId + 1
    inFlight := some (c.lastId + 1)
    abandoned := c.inFlight.or c.abandoned }

variable {notes : List String} {last : Option String} {sent : Hosted}

/-- Before the last line nothing decides. -/
theorem silent_of_sends (h : Orderly lag s) (hs : Sends lag s notes last sent) :
    ∀ a ∈ s.wire.queue
        ++ notes.map fun l => ({ time := sent.latest, item := .ok (.line l) } : Arrival),
      Silent (s.conn.lastId + 1) (s.conn.inFlight.or s.conn.abandoned) a.item := by
  intro a ha
  rcases List.mem_append.mp ha with ha | ha
  · exact h.stale a ha
  · obtain ⟨note, hnote, rfl⟩ := List.mem_map.mp ha
    exact silent_of_skippable (skippable_of_isNote (hs.notes note hnote))

theorem time_of_sends (h : Orderly lag s) (hs : Sends lag s notes last sent) :
    ∀ a ∈ sent.queue, a.time ≤ sent.latest := by
  intro a ha
  rw [hs.queue] at ha
  rcases List.mem_append.mp ha with ha | ha
  · exact Nat.le_trans (h.sent a ha) hs.before
  · obtain ⟨l, _, rfl⟩ := List.mem_map.mp ha
    exact Nat.le_refl _

/-- All that was sent has been read. -/
theorem orderly_of_read (h : Orderly lag s) (hs : Sends lag s notes last sent)
    {inFlight : Option Nat} (hflight : inFlight = none ∨ inFlight = some (s.conn.lastId + 1))
    {now : Instant} (hnow : s.now ≤ now) :
    Orderly lag { now, conn := { asked s.conn with inFlight }, wire := { sent with queue := [] } } where
  state := h.state
  marks m hm := by
    rcases hflight with rfl | rfl
    · exact Nat.le_succ_of_le (h.marks m hm)
    · cases hm
      exact Nat.le_refl _
  flags := hs.flags
  exits := hs.exits
  stopped := hs.stopped
  stale := nofun
  sent := nofun
  soon := Nat.le_trans hs.soon (Nat.add_le_add_right hnow lag)

/-- A request was given up that had an answer to come. -/
theorem orderly_of_given_up (h : Orderly lag s) {reply : String} {r : Wire.Response}
    (hs : Sends lag s notes (some reply) sent) (hr : responseOf (.ok (.line reply)) = some r)
    (hid : r.id = s.conn.lastId + 1) {now : Instant} (hnow : s.now ≤ now) (n : Nat) :
    Orderly lag { now, conn := asked s.conn, wire := { sent with queue := sent.queue.drop n } } where
  state := h.state
  marks m hm := by
    cases hm
    exact Nat.le_refl _
  flags := hs.flags
  exits := hs.exits
  stopped := hs.stopped
  stale a ha := by
    have hmem : a ∈ sent.queue := List.mem_of_mem_drop ha
    rw [hs.queue, List.map_append, ← List.append_assoc, List.mem_append] at hmem
    rcases hmem with hmem | hmem
    · exact silent_of_given_up h.marks (silent_of_sends h hs a hmem)
    · cases List.mem_singleton.mp hmem
      exact .late hr (by rw [hid]; exact Nat.ne_of_lt (Nat.lt_succ_self _)) rfl (Nat.le_of_eq hid)
  sent a ha := time_of_sends h hs a (List.mem_of_mem_drop ha)
  soon := Nat.le_trans hs.soon (Nat.add_le_add_right hnow lag)

variable {op : Operation} {q : Inquiry} {deadline : Option Instant}

theorem begin_of_orderly (h : Orderly lag s) (hop : op.asks o = some q) (hq : q.purpose ≠ .opening) :
    s.conn.begin o op = (asked s.conn, .next (.write (.request q.purpose (s.conn.lastId + 1))
      (q.line (s.conn.lastId + 1)))) :=
  begin_of_open h.state hop hq

theorem take_all (now : Instant) (sent : Hosted) :
    (hosted site).take now sent.queue.length sent = { sent with queue := [] } := by
  show { sent with queue := sent.queue.drop _ } = _
  rw [List.drop_length]

/-- An operation that runs to its end finds the server orderly again, whatever it asks for and
whatever comes of it. -/
theorem run_of_any (ht : Timely site o least lag)
    (h : Orderly lag s) (hop : op.asks o = some q) (hq : q.purpose ≠ .opening)
    (hclock : s.now + o.requestTimeout < clockEnd) :
    ∃ s' r, Board.run (hosted site) o .all none (passBound 1) (start s [{ work := .use op }])
        = (sole op s' none (.ended (.returned r)), false) ∧
      Orderly lag s' ∧ s'.now ≤ s.now + o.requestTimeout ∧
      s'.conn.lastId = s.conn.lastId + 1 := by
  have hbegin := begin_of_orderly h hop hq
  generalize q.line (s.conn.lastId + 1) = line at hbegin
  obtain ⟨notes, last, hout, hnotes⟩ := @answerLine_of_sound site.isThere _ h.flags line
  have hwrite := write_of_orderly site h line
  have hs := sends_of_answering ht.within h hout hnotes
  generalize s.wire.answering site s.now line = sent at hwrite hs
  let item : String → Arrival := fun l => { time := sent.latest, item := .ok (.line l) }
  have hqueue : sent.queue = (s.wire.queue ++ notes.map item) ++ (last.map item).toList := by
    rw [hs.queue, List.map_append, List.append_assoc]
    cases last <;> rfl
  have htimes : ∀ a ∈ sent.queue, a.time < s.now + o.requestTimeout := fun a ha =>
    Nat.lt_of_le_of_lt (Nat.le_trans (time_of_sends h hs a ha) hs.soon)
      (Nat.add_lt_add_left ht.waits s.now)
  rw [hqueue] at htimes
  obtain ⟨htaken, hverdict⟩ := await_up_to_last (silent_of_sends h hs) htimes (Nat.zero_lt_of_lt ht.waits)
  rw [← hqueue] at htaken hverdict
  have hends : (await (s.conn.lastId + 1) (s.conn.inFlight.or s.conn.abandoned) o.requestTimeout
      (s.now + o.requestTimeout) s.now sent.queue).ends ≤ s.now + o.requestTimeout :=
    ends_le_deadline (Nat.le_add_right _ _)
  have hlater : s.now ≤ (await (s.conn.lastId + 1) (s.conn.inFlight.or s.conn.abandoned)
      o.requestTimeout (s.now + o.requestTimeout) s.now sent.queue).ends := now_le_ends _
  generalize hw : await (s.conn.lastId + 1) (s.conn.inFlight.or s.conn.abandoned) o.requestTimeout
    (s.now + o.requestTimeout) s.now sent.queue = w at htaken hverdict hends hlater
  have hmild : w.verdict.Mild := by
    rcases hverdict with hverdict | ⟨a, ha, hjudge⟩
    · rw [hverdict]
      rintro e (he | he)
      · cases he
        rfl
      · exact nomatch he
    · obtain ⟨l, _, rfl⟩ := Option.map_eq_some_iff.mp ha
      exact mild_of_line hjudge
  obtain ⟨inFlight, r, hsettled, hflight⟩ := settled_of_mild (asked s.conn) hq hmild
  have hrun := (run_of_request none (e := .returned r) hbegin hwrite hclock nofun
    hw.symm (fun fuel p => by rw [hsettled, drive_ended])).1 nofun
  rw [htaken, take_all] at hrun
  exact ⟨_, r, hrun, orderly_of_read h hs hflight hlater, hends, rfl⟩

/-- The wait for an answer that is known. -/
theorem await_of_sends (h : Orderly lag s) {reply : String} (hs : Sends lag s notes (some reply) sent)
    (hin : lag < o.requestTimeout) {r : Wire.Response}
    (hr : responseOf (.ok (.line reply)) = some r) (hid : r.id = s.conn.lastId + 1)
    (hshape : r.misshape = none) :
    await (s.conn.lastId + 1) (s.conn.inFlight.or s.conn.abandoned) o.requestTimeout
        (s.now + o.requestTimeout) s.now sent.queue
      = { ends := sent.latest, taken := sent.queue.length, verdict := .answer r } := by
  let item : String → Arrival := fun l => { time := sent.latest, item := .ok (.line l) }
  have hqueue : sent.queue = (s.wire.queue ++ notes.map item) ++ item reply :: [] := by
    rw [hs.queue, List.map_append, List.append_assoc]
    rfl
  have hsoon : sent.latest < s.now + o.requestTimeout :=
    Nat.lt_of_le_of_lt hs.soon (Nat.add_lt_add_left hin s.now)
  have htimes : ∀ a ∈ s.wire.queue ++ notes.map item, a.time ≤ sent.latest := fun a ha =>
    time_of_sends h hs a (hqueue ▸ List.mem_append_left _ ha)
  have hcloses : Closes (s.conn.lastId + 1) (s.conn.inFlight.or s.conn.abandoned)
      o.requestTimeout s.now (s.wire.queue ++ notes.map item) (item reply) (.answer r) :=
    { positive := Nat.zero_lt_of_lt hin
      silent := silent_of_sends h hs
      early := fun a ha => Nat.lt_of_le_of_lt (htimes a ha) hsoon
      inTime := Nat.le_of_lt hsoon
      decides := .answer hr hid hshape }
  rw [hqueue, await_of_closes hcloses htimes, @List.length_append _ _ [item reply],
    show max s.now (item reply).time = sent.latest from max_eq_right hs.later]
  rfl

/-- How an operation ends whose answer is `r`: with it, when the answer comes, or dropped at a
deadline before that. -/
inductive Gets (least lag : Duration) (deadline : Option Instant) (q : Inquiry) (r : Wire.Response)
    (s s' : Session Hosted) : Ending → Bool → Prop
  | answer : s.now + least ≤ s'.now → s'.now ≤ s.now + lag →
      Gets least lag deadline q r s s' (.returned (q.gives r)) false
  | dropped {d : Instant} : deadline = some d → s'.now = d → d < s.now + lag →
      Gets least lag deadline q r s s' .cancelled true

/-- An operation whose answer is known gets it. -/
theorem run_of_answered (ht : Timely site o least lag)
    (h : Orderly lag s) (hop : op.asks o = some q) (hq : q.purpose ≠ .opening)
    (hclock : s.now + o.requestTimeout < clockEnd) (hd : ∀ d, deadline = some d → s.now ≤ d)
    {reply : String} {r : Wire.Response}
    (hout : (answerLine site.isThere s.wire.server (q.line (s.conn.lastId + 1))).2
      = some (notes ++ [reply])) (hnotes : ∀ note ∈ notes, IsNote note)
    (hr : responseOf (.ok (.line reply)) = some r) (hid : r.id = s.conn.lastId + 1)
    (hshape : r.misshape = none) :
    ∃ s' e flag, Board.run (hosted site) o .all deadline (passBound 1)
        (start s [{ work := .use op }]) = (sole op s' none (.ended e), flag) ∧
      Orderly lag s' ∧ s'.conn.lastId = s.conn.lastId + 1 ∧ Gets least lag deadline q r s s' e flag := by
  have hbegin := begin_of_orderly h hop hq
  have hwrite := write_of_orderly site h (q.line (s.conn.lastId + 1))
  have hs : Sends lag s notes (some reply) _ := sends_of_answering ht.within h hout hnotes
  have hafter := after_of_answering ht (s := s) (q.line (s.conn.lastId + 1))
  generalize s.wire.answering site s.now (q.line (s.conn.lastId + 1)) = sent at hwrite hs hafter
  obtain ⟨hanswered, hdropped⟩ := run_of_request deadline
    (e := .returned (q.gives r)) hbegin hwrite hclock hd (await_of_sends h hs ht.waits hr hid hshape).symm
    (fun fuel p => by rw [settled_of_answer _ hq, drive_ended])
  by_cases hlate : ∃ d, deadline = some d ∧ d < sent.latest
  · obtain ⟨d, hd', hlate⟩ := hlate
    exact ⟨_, _, _, hdropped d hd' hlate, orderly_of_given_up h hs hr hid (hd d hd') _, rfl,
      .dropped hd' rfl (Nat.lt_of_lt_of_le hlate hs.soon)⟩
  · have hrun := hanswered fun d hd' => Nat.le_of_not_lt fun hlt => hlate ⟨d, hd', hlt⟩
    dsimp only at hrun
    rw [take_all] at hrun
    exact ⟨_, _, _, hrun, orderly_of_read h hs (.inl rfl) hs.later, rfl, .answer hafter hs.soon⟩

end Orderly

end DemoServer

end Conformance
