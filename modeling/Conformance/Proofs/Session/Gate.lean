/-
Conformance — the gate of a session, and its end.

Before the session is open nothing is written but what opens it: the opening
request, and the line that says that the session is open.  `Opened` is read off
the run: a response that opens was read, and the write that announces it has
ended next.  The one way into `ready` leads through these two events
(`ready_of_turn`), so whatever is written in `ready` has them behind it.

There is no way out of `disconnected` (`disconnected_of_turn`), and no line is
begun there.  Both hold for any transport and for operations dropped at any
moment, for they hold of single turns.
-/
import Conformance.Proofs.Session.History

namespace Conformance

open Client Connection

/-! ## The opening of a session -/

/-- At `x` the client reads a response that opens the session, and begins to announce it. -/
structure Admits (info : Wire.OpenResult) (x : Entry) : Prop where
  awaited : ∃ item r, x.before.phase = some (.await .opening r.id) ∧ x.event = .heard item ∧
    responseOf item = some r ∧ Opens r info
  announces : x.begins = some (.announcement info, openedLine)

/-- The session has been opened: right after a response that opens it, the
announcement was written. -/
def Opened (h : History) : Prop :=
  ∃ info x y later earlier, h = later ++ y :: x :: earlier ∧ Admits info x ∧
    y.before = x.after ∧ y.event = .written (.ok ())

theorem opened_cons {h : History} (x : Entry) (ho : Opened h) : Opened (x :: h) := by
  obtain ⟨info, y, z, later, earlier, rfl, hrest⟩ := ho
  exact ⟨info, y, z, x :: later, earlier, rfl, hrest⟩

/-! ## The ways into a state -/

theorem failedState_eq_ready {c : Connection} {purpose : Purpose} {e : ClientError}
    (h : c.failedState purpose e = .ready) : c.state = .ready := by
  unfold failedState at h
  split at h
  · exact nomatch h
  · cases purpose with
    | opening => exact nomatch h
    | answer | listing => exact h

theorem failedState_of_disconnected {c : Connection} (purpose : Purpose) (e : ClientError)
    (h : c.state = .disconnected) : c.failedState purpose e = .disconnected := by
  unfold failedState
  exact if_pos (by rw [h]; simp)

theorem purpose_state_ne (purpose : Purpose) : purpose.state ≠ .disconnected := by
  cases purpose <;> exact nofun

/-- An operation that makes a request opens the session or finds it open. -/
theorem inquiry_cases {o : ClientOptions} {c : Connection} {op : Operation} {q : Inquiry}
    (hd : c.declines op = none) (hq : op.asks o = some q) :
    (q = openInquiry o ∧ c.state ≠ .disconnected) ∨
      (q.purpose.state = .ready ∧ c.state = .ready) := by
  cases op with
  | connect =>
      cases hq
      refine .inl ⟨rfl, fun hs => ?_⟩
      simp only [declines, hs] at hd
      cases hd
  | request method params =>
      cases hq
      exact .inr ⟨rfl, refusal_eq_none_iff.mp (Option.map_eq_none_iff.mp hd)⟩
  | listTools =>
      cases hq
      exact .inr ⟨rfl, refusal_eq_none_iff.mp (Option.map_eq_none_iff.mp hd)⟩
  | unprintable | notify | shutdown | ask => cases hq

section Turns

variable {o : ClientOptions} {s s' : Client} {e : Event} {r : Option Outcome}

/-- A connection is ready when it was, or when the announcement has just been written. -/
theorem ready_of_turn (h : Turn o s e s' r) (hs : s'.conn.state = .ready) :
    s.conn.state = .ready ∨
      ∃ info line, s.phase = some (.write (.announcement info) line) ∧ e = .written (.ok ()) := by
  cases h with
  | asks hp hd hq =>
      rcases inquiry_cases hd hq with ⟨rfl, _⟩ | ⟨_, hready⟩
      · exact nomatch hs
      · exact .inl hready
  | announced hp => exact .inr ⟨_, _, hp, rfl⟩
  | shutsDown => exact nomatch hs
  | unsent | unannounced | unopened | misshapen | refuses | expires =>
      dsimp only at hs
      exact .inl (failedState_eq_ready hs)
  | unnotified =>
      refine .inl ?_
      dsimp only at hs
      split at hs
      · exact nomatch hs
      · exact hs
  | _ => exact .inl hs

/-- The announcement is begun at a response that opens the session, and only there. -/
theorem announcing_of_turn (h : Turn o s e s' r) {info : Wire.OpenResult} {line : String}
    (hp : s'.phase = some (.write (.announcement info) line)) :
    line = openedLine ∧ Admits info ⟨s, e, s', r⟩ := by
  cases h with
  | opens hw hr _ ho =>
      cases hp
      exact ⟨rfl, ⟨_, _, hw, rfl, hr, ho⟩, rfl⟩
  | passes hw => exact nomatch hw.symm.trans hp
  | declined hn => exact nomatch hn.symm.trans hp
  | _ => exact nomatch hp

/-- A line that is begun belongs to the opening of the session, or finds it open. -/
theorem begins_of_turn (h : Turn o s e s' r) {why : Writing} {line : String}
    (hp : s'.phase = some (.write why line)) :
    (∃ id, why = .request .opening id ∧ line = (openInquiry o).line id) ∨
      (∃ info, why = .announcement info ∧ line = openedLine ∧ Admits info ⟨s, e, s', r⟩) ∨
      s.conn.state = .ready := by
  cases h with
  | asks _ hd hq =>
      cases hp
      rcases inquiry_cases hd hq with ⟨rfl, _⟩ | ⟨_, hready⟩
      · exact .inl ⟨_, rfl, rfl⟩
      · exact .inr (.inr hready)
  | notifies _ hready => exact .inr (.inr hready)
  | opens hw hr hm ho =>
      cases hp
      exact .inr (.inl ⟨_, rfl, rfl, ⟨_, _, hw, rfl, hr, ho⟩, rfl⟩)
  | passes hw => exact nomatch hw.symm.trans hp
  | declined hn => exact nomatch hn.symm.trans hp
  | _ => exact nomatch hp

/-- What is disconnected stays so, and begins no line. -/
theorem disconnected_of_turn (hfits : s.Fits) (h : Turn o s e s' r)
    (hs : s.conn.state = .disconnected) :
    s'.conn.state = .disconnected ∧ ∀ why line, s'.phase ≠ some (.write why line) := by
  obtain ⟨c, phase⟩ := s
  cases h with
  | asks hp hd hq =>
      rcases inquiry_cases hd hq with ⟨_, hne⟩ | ⟨_, hready⟩
      · exact absurd hs hne
      · exact nomatch hready.symm.trans hs
  | notifies hp hready => exact nomatch hready.symm.trans hs
  | announced hp =>
      cases hp
      exact nomatch hfits.symm.trans hs
  | opens hp | sent hp =>
      cases hp
      exact absurd (hfits.symm.trans hs) (purpose_state_ne _)
  | passes hp =>
      cases hp
      exact ⟨hs, nofun⟩
  | declined hp =>
      cases hp
      exact ⟨hs, nofun⟩
  | unsent | unannounced | unopened | misshapen | refuses | expires =>
      refine ⟨?_, nofun⟩
      dsimp only
      exact failedState_of_disconnected _ _ hs
  | unnotified =>
      refine ⟨?_, nofun⟩
      show (if _ then _ else c.state) = _
      rw [hs, ite_self]
  | shutsDown => exact ⟨rfl, nofun⟩
  | _ => exact ⟨hs, nofun⟩

end Turns

/-! ## Refusals -/

/-- The state lets the operation go on. -/
def Operation.allowed : Operation → ClientState → Prop
  | .connect, s => s ≠ .disconnected
  | .request _ _, s => s = .ready
  | .unprintable _, s => s = .ready
  | .listTools, s => s = .ready
  | .notify _, s => s = .ready
  | .shutdown _, _ => True
  | .ask _, _ => True

/-- The error of an operation that the state does not let go on. -/
inductive Refusal : ClientError → Prop
  | notOpen : Refusal .notOpen
  | gone : Refusal (.transportClosed "client is disconnected")
  | closed : Refusal (.handshake (.transportClosed "client is disconnected"))

theorem refusal_of_not_ready {c : Connection} (h : c.state ≠ .ready) :
    ∃ e, c.refusal = some e ∧ Refusal e := by
  cases hs : c.state with
  | ready => exact absurd hs h
  | created | opening => exact ⟨.notOpen, by rw [refusal, hs], .notOpen⟩
  | disconnected =>
      exact ⟨.transportClosed "client is disconnected", by rw [refusal, hs], .gone⟩

/-- What the state does not allow is refused, and nothing is done. -/
theorem refused_of_not_allowed {o : ClientOptions} {s : Client} {op : Operation}
    (hp : s.phase = none) (hop : ¬ op.allowed s.conn.state) :
    ∃ e, Refusal e ∧ s.step o (.start op) = some (s, some (.error e)) := by
  obtain ⟨c, phase⟩ := s
  cases hp
  cases op with
  | connect =>
      have hs : c.state = .disconnected := not_not.mp hop
      exact ⟨_, .closed, by simp only [step, begin, hs, settle]⟩
  | request | unprintable | listTools | notify =>
      obtain ⟨e, hr, he⟩ := refusal_of_not_ready hop
      exact ⟨e, he, by simp only [step, begin, hr, settle]⟩
  | shutdown | ask => exact absurd trivial hop

/-- What is refused leaves the client as it is. -/
theorem unchanged_of_refused {o : ClientOptions} {s s' : Client} {op : Operation}
    {e : ClientError} (h : Turn o s (.start op) s' (some (.error e))) (he : Refusal e) :
    s' = s := by
  cases h with
  | declined => rfl
  | unprintable => exact nomatch he

/-! ## Runs -/

/-- How far the opening of the session has come. -/
structure Gated (h : History) : Prop where
  ready : h.now.conn.state = .ready → Opened h
  announcing : ∀ info line, h.now.phase = some (.write (.announcement info) line) →
    ∃ x earlier, h = x :: earlier ∧ Admits info x

section Runs

variable {o : ClientOptions}

theorem gated_of_run {h : History} (hrun : Run o h) : Gated h := by
  refine run_induction ⟨nofun, nofun⟩ ?_ hrun
  intro h e s r _ ih hturn
  constructor
  · intro hs
    -- a session that was not open is opened by the end of its announcement alone
    rcases ready_of_turn hturn hs with hold | ⟨info, line, hp, rfl⟩
    · exact opened_cons _ (ih.ready hold)
    · obtain ⟨x, earlier, rfl, hx⟩ := ih.announcing info line hp
      exact ⟨info, x, _, [], earlier, rfl, hx, rfl, rfl⟩
  · intro info line hp
    exact ⟨_, h, rfl, (announcing_of_turn hturn hp).2⟩

theorem begins_eq_some_iff {x : Entry} {why : Writing} {line : String} :
    x.begins = some (why, line) ↔ x.after.phase = some (.write why line) := by
  rw [Entry.begins]
  split <;> simp_all

theorem begins_eq_none_iff {x : Entry} :
    x.begins = none ↔ ∀ why line, x.after.phase ≠ some (.write why line) := by
  rw [Option.eq_none_iff_forall_ne_some]
  constructor
  · exact fun h why line hp => h _ (begins_eq_some_iff.mpr hp)
  · exact fun h p hp => h p.1 p.2 (begins_eq_some_iff.mp hp)

theorem disconnected_of_append {later earlier : History} (hrun : Run o (later ++ earlier))
    (hs : earlier.now.conn.state = .disconnected) :
    (History.now (later ++ earlier)).conn.state = .disconnected ∧
      ∀ x ∈ later, x.begins = none := by
  induction later with
  | nil => exact ⟨hs, by simp⟩
  | cons x rest ih =>
      have hrest : Run o (rest ++ earlier) := @run_of_append o [x] _ hrun
      obtain ⟨hstate, hbegins⟩ := ih hrest
      obtain ⟨hstays, hquiet⟩ :=
        disconnected_of_turn (fits_of_run hrest) (turn_of_entry hrun).2 hstate
      refine ⟨hstays, fun y hy => ?_⟩
      rcases List.mem_cons.mp hy with rfl | hy
      · exact begins_eq_none_iff.mpr hquiet
      · exact hbegins y hy

/-- The gate.  A line that is begun is the opening request, or the announcement
behind a response that opens, or the session has been opened before.  What the
state does not allow is refused, and a refused operation does nothing.  What is
disconnected stays so and begins no line.  Opening an open session does nothing. -/
theorem session_gate (o : ClientOptions) :
    (∀ later x earlier, Run o (later ++ x :: earlier) →
      ∀ why line, x.begins = some (why, line) →
        (∃ id, why = .request .opening id ∧ line = (openInquiry o).line id) ∨
          (∃ info, why = .announcement info ∧ line = openedLine ∧ Admits info x) ∨
          Opened earlier) ∧
    (∀ h op, Run o h → h.now.phase = none →
      (¬ op.allowed h.now.conn.state →
        ∃ e, Refusal e ∧ h.now.step o (.start op) = some (h.now, some (.error e))) ∧
      ∀ s e, h.now.step o (.start op) = some (s, some (.error e)) → Refusal e → s = h.now) ∧
    (∀ later earlier, Run o (later ++ earlier) → earlier.now.conn.state = .disconnected →
      (History.now (later ++ earlier)).conn.state = .disconnected ∧
        ∀ x ∈ later, x.begins = none) ∧
    (∀ h, Run o h → h.now.phase = none → h.now.conn.state = .ready →
      h.now.step o (.start .connect) = some (h.now, some (.ok .done))) := by
  refine ⟨?_, ?_, fun _ _ hrun hs => disconnected_of_append hrun hs, ?_⟩
  · intro later x earlier hrun why line hbegins
    have hx : Run o (x :: earlier) := run_of_append hrun
    obtain ⟨hbefore, hturn⟩ := turn_of_entry hx
    have hgated : Gated earlier := gated_of_run (@run_of_append o [x] _ hx)
    rcases begins_of_turn hturn (begins_eq_some_iff.mp hbegins) with hopen | hann | hready
    · exact .inl hopen
    · rw [← hbefore] at hann
      exact .inr (.inl hann)
    · exact .inr (.inr (hgated.ready hready))
  · intro h op _ hp
    refine ⟨fun hop => refused_of_not_allowed hp hop, fun s e hstep he => ?_⟩
    exact unchanged_of_refused (turn_of_step hstep) he
  · intro h _ hp hs
    generalize h.now = s at hp hs
    obtain ⟨c, phase⟩ := s
    cases hp
    have hready : c.state = .ready := hs
    simp only [step, begin, hready, settle]

/-- A session is opened and asked for its tools; a client that has not opened
one is refused; one that was shut down stays so; an open session is not opened
again. -/
theorem session_gate_each_part :
    (∃ earlier x, Run {} (x :: earlier) ∧ x.begins.isSome ∧ x.before.conn.state = .ready ∧
      Opened earlier) ∧
    (∃ e, Refusal e ∧
      (History.now []).step {} (.start .listTools) = some (History.now [], some (.error e))) ∧
    (∃ x earlier, Run {} (x :: earlier) ∧ x.event = .start .connect ∧
      x.after.conn.state = .disconnected ∧ x.begins = none) ∧
    ∃ h, Run {} h ∧ h.now.conn.state = .ready ∧
      h.now.step {} (.start .connect) = some (h.now, some (.ok .done)) := by
  let opening : List Event :=
    [.start .connect, .written (.ok ()),
      .heard (.ok (.line "\x7b\"id\":1,\"result\":\x7b\x7d\x7d")), .written (.ok ())]
  obtain ⟨hgate, hrefused, hend, hagain⟩ := session_gate {}
  refine ⟨?_, ?_, ?_, ?_⟩
  · have hrun : Run {} (History.play {} (opening ++ [.start .listTools])) := run_play _ _
    refine ⟨_, _, hrun, rfl, rfl, ?_⟩
    rcases hgate [] _ _ hrun _ _ rfl with ⟨id, hwhy, _⟩ | ⟨info, hwhy, _⟩ | hopened
    · exact nomatch hwhy
    · exact nomatch hwhy
    · exact hopened
  · exact (hrefused [] .listTools .nil rfl).1 nofun
  · have hrun : Run {}
        (History.play {} [.start (.shutdown 0), .stopped (.ok ()), .start .connect]) :=
      run_play _ _
    obtain ⟨hstate, hquiet⟩ := hend [_] _ hrun rfl
    exact ⟨_, _, hrun, rfl, hstate, hquiet _ List.mem_cons_self⟩
  · have hrun : Run {} (History.play {} opening) := run_play _ _
    exact ⟨_, hrun, rfl, hagain _ hrun rfl rfl⟩

end Runs

end Conformance
