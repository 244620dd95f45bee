/-
Conformance — a server that sends notifications.

With notifications and without, the demonstration server does the same and writes the same answers; a
notification is one more line in front of an answer, at the same instant (`pads_notified`).  So no
program can tell the two apart, as it cannot tell apart any two servers of which one puts in skippable
lines (`skippable_lines_are_transparent`).

That leaves one case out, and `padding_at_deadline` shows that it must: an answer that comes at
the very instant of the deadline is read, but not behind a notification that comes with it.
-/
import Conformance.Proofs.Demo.Host
import Conformance.Proofs.Demo.Session
import Conformance.Proofs.Session.Mirroring

namespace Conformance.DemoServer

/-- The server, told whether to send notifications. -/
def State.notifying (s : State) (notify : Bool) : State :=
  { s with flags := { s.flags with notify } }

section Notifying

variable {isThere : String → Bool} {s : State} {notify : Bool}

theorem scan_notifying (id : Nat) (arguments : Json) :
    scan isThere (s.notifying notify) id arguments
      = ((scan isThere s id arguments).1.notifying notify, (scan isThere s id arguments).2) := by
  unfold scan
  split
  · rfl
  · split_ifs <;> rfl

theorem callTool_notifying (id : Nat) (tool : String) (arguments : Json) :
    callTool isThere (s.notifying notify) id tool arguments
      = ((callTool isThere s id tool arguments).1.notifying notify,
          (callTool isThere s id tool arguments).2) := by
  unfold callTool
  split_ifs
  · exact scan_notifying id arguments
  · rfl
  · rfl

theorem handleCall_notifying (id : Nat) (params : Json) :
    handleCall isThere (s.notifying notify) id params
      = ((handleCall isThere s id params).1.notifying notify,
          (handleCall isThere s id params).2) := by
  have hflags : (s.notifying notify).flags.exitOn = s.flags.exitOn ∧
      (s.notifying notify).flags.hangOn = s.flags.hangOn ∧
      (s.notifying notify).flags.garbageOn = s.flags.garbageOn := ⟨rfl, rfl, rfl⟩
  simp only [handleCall, hflags, callTool_notifying]
  split_ifs <;> rfl

theorem handleRequest_notifying (id : Nat) (method : String) (params : Json) :
    handleRequest isThere (s.notifying notify) id method params
      = ((handleRequest isThere s id method params).1.notifying notify,
          (handleRequest isThere s id method params).2) := by
  have hflags : (s.notifying notify).flags.handshakeError = s.flags.handshakeError ∧
      (s.notifying notify).flags.wrongId = s.flags.wrongId := ⟨rfl, rfl⟩
  simp only [handleRequest, hflags, handleCall_notifying]
  split_ifs <;> rfl

/-- What a message leads to does not depend on notifications. -/
theorem handle_notifying (message : Json) :
    handle isThere (s.notifying notify) message
      = ((handle isThere s message).1.notifying notify, (handle isThere s message).2) := by
  unfold handle
  split
  · rfl
  · exact handleRequest_notifying _ _ _

/-- Two answers of which the second has a note in front, or none. -/
inductive NotedAnswer : Option (List String) → Option (List String) → Prop
  | same {out : Option (List String)} : NotedAnswer out out
  | noted {note reply : String} : IsNote note → NotedAnswer (some [reply]) (some [note, reply])

theorem isNone_of_noted {out out' : Option (List String)} (h : NotedAnswer out out') :
    out'.isNone = out.isNone := by
  cases h <;> rfl

theorem answer_notifying (hplain : s.flags.notify = false) (message : Json) :
    (answer isThere (s.notifying true) message).1
        = (answer isThere s message).1.notifying true ∧
      NotedAnswer (answer isThere s message).2 (answer isThere (s.notifying true) message).2 := by
  have hflags : (handle isThere s message).1.flags = s.flags := by
    cases hid : requestId? message with
    | none => rw [handle_of_noRequest hid]
    | some id =>
        by_cases hfree : s.flags.Intercepts message
        · obtain ⟨tool, hcalled, hwhich⟩ := hfree
          rw [handle_of_intercepted hid hcalled hwhich]
        · obtain ⟨s', r, hhandle, hanswered⟩ :=
            @answered_of_handle isThere s _ _ hid hfree
          rw [hhandle]
          exact hanswered.flags
  rw [← hflags] at hplain
  simp only [answer, handle_notifying]
  generalize handle isThere s message = result at hplain
  obtain ⟨s', action⟩ := result
  cases action with
  | reply r =>
      refine ⟨rfl, ?_⟩
      dsimp only at hplain ⊢
      rw [hplain]
      exact .noted (isNote_noteLine message)
  | garbage | silent | exit => exact ⟨rfl, .same⟩

/-- A line is answered alike, with a note in front or without. -/
theorem answerLine_notifying (hplain : s.flags.notify = false) (line : String) :
    (answerLine isThere (s.notifying true) line).1
        = (answerLine isThere s line).1.notifying true ∧
      NotedAnswer (answerLine isThere s line).2 (answerLine isThere (s.notifying true) line).2 := by
  cases kind_of_line s.flags line with
  | blank hblank =>
      rw [answerLine_of_blank hblank, answerLine_of_blank hblank]
      exact ⟨rfl, .same⟩
  | noJson hblank hparse =>
      rw [answerLine_of_noJson hblank hparse, answerLine_of_noJson hblank hparse]
      exact ⟨rfl, .same⟩
  | noRequest hparse =>
      rw [answerLine_of_message hparse, answerLine_of_message hparse]
      exact answer_notifying hplain _
  | intercepted hasks | free hasks =>
      rw [answerLine_of_message hasks.parsed, answerLine_of_message hasks.parsed]
      exact answer_notifying hplain _

end Notifying

/-- The same server without notifications and with them; the second has sent the same, with
notifications put in. -/
structure Noted (h h' : Hosted) : Prop where
  plain : h.server.flags.notify = false
  server : h'.server = h.server.notifying true
  heard : h'.heard = h.heard
  latest : h'.latest = h.latest
  exits : h'.exits = h.exits
  stopped : h'.stopped = h.stopped
  queue : Padded h.queue h'.queue
  sent : ∀ a ∈ h.queue ++ h'.queue, a.time ≤ h.latest

section Noted

variable {site : Site} {h h' : Hosted} {time now : Instant}

theorem skippable_of_isNote {line : String} (h : IsNote line) : Skippable (.ok (.line line)) := by
  obtain ⟨members, method, hparse, hmethod, _⟩ := h
  exact .message hparse (by rw [hmethod]; rfl)

theorem padded_items {out out' : Option (List String)} (h : NotedAnswer out out') :
    Padded (Hosted.items time out) (Hosted.items time out') := by
  have hsame : ∀ as : List Arrival, (∀ a ∈ as, a.time = time) → Padded as as := by
    intro as
    induction as with
    | nil => exact fun _ => .nil
    | cons a as ih =>
        intro htime
        have hrest := fun c hc => htime c (List.mem_cons_of_mem a hc)
        refine .keep (fun c hc => Nat.le_of_eq ?_) (ih hrest)
        rw [htime a List.mem_cons_self, hrest c hc]
  cases h with
  | same => exact hsame _ Hosted.time_of_items
  | noted hnote =>
      refine .add (skippable_of_isNote hnote) (fun a ha => Nat.le_of_eq ?_) (hsame _ ?_)
      · exact (@Hosted.time_of_items _ (some [_]) a ha).symm
      · exact @Hosted.time_of_items _ (some [_])

/-- The server has the same line to answer with notifications and without. -/
theorem noted_of_answering (hn : Noted h h') (line : String) :
    Noted (h.answering site now line) (h'.answering site now line) := by
  obtain ⟨hplain, hserver, hheard, hlatest, _, hstopped, hqueue, hsent⟩ := hn
  obtain ⟨hstate, hout⟩ := @answerLine_notifying site.isThere h.server hplain line
  have htime : h'.answeredAt site now line = h.answeredAt site now line := by
    rw [Hosted.answeredAt, Hosted.answeredAt, hlatest, hheard]
  have hlater : h.latest ≤ h.answeredAt site now line := le_max_left _ _
  have hkept : ∀ a ∈ h.queue ++ h'.queue, a.time ≤ h.answeredAt site now line :=
    fun a ha => Nat.le_trans (hsent a ha) hlater
  rw [← hserver] at hstate hout
  have hnone := isNone_of_noted hout
  have hflags := (@state_of_answerLine site.isThere h.server line).1
  constructor
  · rw [Hosted.server_answering, hflags, hplain]
  · rw [Hosted.server_answering, Hosted.server_answering, hstate]
  · rw [Hosted.heard_answering, Hosted.heard_answering, hheard]
  · rw [Hosted.latest_answering, Hosted.latest_answering, htime]
  · rw [Hosted.exits_answering, Hosted.exits_answering, htime, hnone]
  · rw [Hosted.stopped_answering, Hosted.stopped_answering, hstopped]
  · rw [Hosted.queue_answering, Hosted.queue_answering, htime]
    refine padded_append hqueue (padded_items hout) fun a ha c hc => ?_
    rw [Hosted.time_of_items c hc]
    exact hkept a ha
  · intro a ha
    rw [Hosted.latest_answering]
    rw [Hosted.queue_answering, Hosted.queue_answering, htime, List.mem_append, List.mem_append,
      List.mem_append] at ha
    rcases ha with (ha | ha) | ha | ha
    · exact hkept a (List.mem_append_left _ ha)
    · exact Nat.le_of_eq (Hosted.time_of_items a ha)
    · exact hkept a (List.mem_append_right _ ha)
    · exact Nat.le_of_eq (Hosted.time_of_items a ha)

theorem noted_of_receive (hn : Noted h h') (line : String) :
    Noted (h.receive site now line).1 (h'.receive site now line).1 ∧
      (h'.receive site now line).2 = (h.receive site now line).2 := by
  have hthere : h'.isThere now = h.isThere now := by
    rw [Hosted.isThere, Hosted.isThere, hn.stopped, hn.exits]
  simp only [Hosted.receive, hthere, hn.exits, hn.stopped]
  split_ifs
  · exact ⟨⟨hn.plain, hn.server, by rw [hn.heard], hn.latest, rfl, rfl, hn.queue, hn.sent⟩, rfl⟩
  · exact ⟨noted_of_answering hn line, rfl⟩
  · exact ⟨hn, rfl⟩
  · exact ⟨hn, rfl⟩

theorem noted_of_take (hn : Noted h h') {n m : Nat} (hcut : Cut h.queue h'.queue n m) :
    Noted { h with queue := h.queue.drop n } { h' with queue := h'.queue.drop m } where
  plain := hn.plain
  server := hn.server
  heard := hn.heard
  latest := hn.latest
  exits := hn.exits
  stopped := hn.stopped
  queue := hcut.left
  sent := by
    intro a ha
    refine hn.sent a ?_
    rcases List.mem_append.mp ha with ha | ha
    · exact List.mem_append_left _ (List.mem_of_mem_drop ha)
    · exact List.mem_append_right _ (List.mem_of_mem_drop ha)

theorem noted_of_stop (hn : Noted h h') :
    Noted { h with stopped := true } { h' with stopped := true } :=
  ⟨hn.plain, hn.server, hn.heard, hn.latest, hn.exits, rfl, hn.queue, hn.sent⟩

/-- Notifications are skippable lines and nothing else. -/
theorem pads_notified (site : Site) : Pads (hosted site) (hosted site) Noted where
  arrivals _ _ _ hn := hn.queue
  steady _ _ _ := rfl
  steady' _ _ _ := rfl
  take _ _ _ _ _ hn hcut := noted_of_take hn hcut
  write now line w w' hn := by
    obtain ⟨hnoted, hresult⟩ := @noted_of_receive site w w' now hn line
    exact ⟨rfl, hresult, hnoted, fun _ => hnoted⟩
  connected now w w' hn := ⟨hn, by
    show w'.isThere now = w.isThere now
    rw [Hosted.isThere, Hosted.isThere, hn.stopped, hn.exits]⟩
  stop _ _ _ _ hn := ⟨rfl, rfl, noted_of_stop hn, noted_of_stop hn⟩
  stderr _ w w' hn := congrArg site.complaints hn.heard

end Noted

theorem noted_fresh (flags : Flags) :
    Noted (.fresh { flags with notify := false }) (.fresh { flags with notify := true }) :=
  ⟨rfl, rfl, rfl, rfl, rfl, rfl, .nil, nofun⟩

end Conformance.DemoServer

namespace Conformance

/-! ## Transparency -/

/-- Two runs, with the lines that were written, that a client cannot tell apart. -/
structure Indistinct {σ τ α : Type} (r : Session (σ × List String) × Program.End α)
    (r' : Session (τ × List String) × Program.End α) : Prop where
  ending : r'.2 = r.2
  now : r'.1.now = r.1.now
  conn : r'.1.conn = r.1.conn
  lines : r'.1.wire.2 = r.1.wire.2

theorem indistinct_of_pads {σ τ α : Type} {T : Transport σ} {T' : Transport τ} {R : σ → τ → Prop}
    (h : Pads T T' R) (o : ClientOptions) (deadline : Option Instant) (p : Program α)
    (now : Instant) (c : Connection) {w : σ} {w' : τ} (hw : R w w')
    (hclear : p.ClearOfDeadlines T.recording o deadline { now, conn := c, wire := (w, []) }) :
    Indistinct (p.run T.recording o deadline { now, conn := c, wire := (w, []) })
      (p.run T'.recording o deadline { now, conn := c, wire := (w', []) }) := by
  have hlike : Session.Like (fun w w' : _ × List String => R w.1 w'.1 ∧ w'.2 = w.2)
      { now, conn := c, wire := (w, []) } { now, conn := c, wire := (w', []) } :=
    ⟨rfl, rfl, hw, rfl⟩
  obtain ⟨hsession, hend⟩ := like_of_program (pads_recording h) p hlike hclear
  exact ⟨hend, hsession.now, hsession.conn, hsession.wire.2⟩

/-- Skippable lines that a server puts in, anywhere in its output, make no difference to what a
program does with its client: it ends alike and at the same instant, writes the same lines, and
leaves the client as it is, its ids and marks included.  So the demonstration server with
notifications cannot be told from the one without.  Of the run without the lines it is asked that no
wait comes to read, at the very instant of its deadline, an item that is not skippable. -/
theorem skippable_lines_are_transparent :
    (∀ (σ τ α : Type) (T : Transport σ) (T' : Transport τ) (R : σ → τ → Prop), Pads T T' R →
      ∀ (o : ClientOptions) (deadline : Option Instant) (p : Program α) (now : Instant)
        (c : Connection) (w : σ) (w' : τ), R w w' →
        p.ClearOfDeadlines T.recording o deadline { now, conn := c, wire := (w, []) } →
        Indistinct (p.run T.recording o deadline { now, conn := c, wire := (w, []) })
          (p.run T'.recording o deadline { now, conn := c, wire := (w', []) })) ∧
    ∀ (α : Type) (site : DemoServer.Site) (flags : DemoServer.Flags) (o : ClientOptions)
      (deadline : Option Instant) (p : Program α) (now : Instant) (c : Connection),
      let session : Bool → Session (DemoServer.Hosted × List String) := fun notify =>
        { now, conn := c, wire := (.fresh { flags with notify }, []) }
      p.ClearOfDeadlines (DemoServer.hosted site).recording o deadline (session false) →
      Indistinct (p.run (DemoServer.hosted site).recording o deadline (session false))
        (p.run (DemoServer.hosted site).recording o deadline (session true)) :=
  ⟨fun _ _ _ _ _ _ h o deadline p now c _ _ hw hclear =>
      indistinct_of_pads h o deadline p now c hw hclear,
    fun _ site flags o deadline p now c hclear =>
      indistinct_of_pads (DemoServer.pads_notified site) o deadline p now c
        (DemoServer.noted_fresh flags) hclear⟩

/-- A server that has sent all it will ever send. -/
def queued : Transport (List Arrival) where
  write now _ w := .at now (w, .ok ())
  arrivals _ w := w
  take _ n w := w.drop n
  connected _ w := (w, true)
  stop now _ w := { ends := now, after := w, result := .ok (), dropped := w }
  stderr _ _ := []

theorem pads_queued : Pads queued queued Padded where
  arrivals _ _ _ hw := hw
  steady _ _ _ := rfl
  steady' _ _ _ := rfl
  take _ _ _ _ _ _ hcut := hcut.left
  write _ _ _ _ hw := ⟨rfl, rfl, hw, fun _ => hw⟩
  connected _ _ _ hw := ⟨hw, rfl⟩
  stop _ _ _ _ hw := ⟨rfl, rfl, hw, hw⟩
  stderr _ _ _ _ := rfl

/-- A program that makes one request, and whether it is answered. -/
def askOnce : Program Bool :=
  .gather .all [{ work := .use (.request "m" none) }] fun endings =>
    .done (endings.all fun e =>
      match e with
      | .returned (.ok _) => true
      | _ => false)

def Program.End.holds : Program.End Bool → Bool
  | .done b => b
  | _ => false

def answerAt (time : Instant) : Arrival :=
  ⟨time, .ok (.line "\x7b\"id\":1,\"result\":null\x7d")⟩

/-- An answer at the very instant of the deadline is read, but not behind a blank line that comes
with it: without the condition the statement is wrong. -/
theorem padding_at_deadline :
    ¬ ∀ (σ τ α : Type) (T : Transport σ) (T' : Transport τ) (R : σ → τ → Prop), Pads T T' R →
      ∀ (o : ClientOptions) (deadline : Option Instant) (p : Program α) (now : Instant)
        (c : Connection) (w : σ) (w' : τ), R w w' →
        Indistinct (p.run T.recording o deadline { now, conn := c, wire := (w, []) })
          (p.run T'.recording o deadline { now, conn := c, wire := (w', []) }) := by
  intro h
  have hpadded : Padded [answerAt 5] [⟨5, .ok (.line " ")⟩, answerAt 5] :=
    .add (.blank (by decide)) (fun a ha => by
      cases List.mem_singleton.mp ha
      exact Nat.le_refl 5) (.keep nofun .nil)
  have hrun := (h _ _ _ _ _ _ pads_queued { requestTimeout := 5 } none askOnce 0
    { state := .ready } _ _ hpadded).ending
  have hholds := congrArg Program.End.holds hrun
  revert hholds
  decide +kernel

/-- Nothing is read at the instant of a deadline. -/
theorem clear_of_times {σ α : Type} {T : Transport σ} {o : ClientOptions}
    {deadline : Option Instant} {p : Program α} {s : Session σ}
    (h : ∀ r ∈ p.rounds T o deadline s, ∀ x ∈ r.1.along T o (Board.beginsWait T o) r.2,
      ∀ a ∈ (T.arrivals x.1.now x.1.wire).take x.2.taken, a.time ≠ x.1.now + o.requestTimeout) :
    p.ClearOfDeadlines T o deadline s :=
  fun r hr x hx a ha hat => absurd hat (h r hr x hx a ha)

/-- A blank line before an answer is not seen, nor is a notification before one that comes too
late. -/
theorem skippable_lines_are_transparent_of_chatter :
    let o : ClientOptions := { requestTimeout := 5 }
    let c : Connection := { state := .ready }
    let site : DemoServer.Site :=
      { isThere := fun _ => false, lag := fun _ => 10, complaints := fun _ => [] }
    let plain : Session (DemoServer.Hosted × List String) :=
      { conn := c, wire := (.fresh { notify := false }, []) }
    Padded [answerAt 3] [⟨1, .ok (.line " ")⟩, answerAt 3] ∧
      askOnce.ClearOfDeadlines queued.recording o none { conn := c, wire := ([answerAt 3], []) } ∧
      Indistinct (askOnce.run queued.recording o none { conn := c, wire := ([answerAt 3], []) })
        (askOnce.run queued.recording o none
          { conn := c, wire := ([⟨1, .ok (.line " ")⟩, answerAt 3], []) }) ∧
      askOnce.ClearOfDeadlines (DemoServer.hosted site).recording o none plain ∧
      Indistinct (askOnce.run (DemoServer.hosted site).recording o none plain)
        (askOnce.run (DemoServer.hosted site).recording o none
          { plain with wire := (.fresh { notify := true }, []) }) := by
  intro o c site plain
  have hpadded : Padded [answerAt 3] [⟨1, .ok (.line " ")⟩, answerAt 3] :=
    .add (.blank (by decide)) (fun a ha => by
      cases List.mem_singleton.mp ha
      decide) (.keep nofun .nil)
  have hclear : askOnce.ClearOfDeadlines queued.recording o none
      { conn := c, wire := ([answerAt 3], []) } := clear_of_times (by decide +kernel)
  have hhosted : askOnce.ClearOfDeadlines (DemoServer.hosted site).recording o none plain :=
    clear_of_times (by decide +kernel)
  obtain ⟨hpads, hdemo⟩ := skippable_lines_are_transparent
  exact ⟨hpadded, hclear, hpads _ _ _ _ _ _ pads_queued o none askOnce 0 c _ _ hpadded hclear,
    hhosted, hdemo _ site {} o none askOnce 0 c hhosted⟩

end Conformance
