/-
Conformance — the law of request ids.

The law has three parts.  What every run keeps: the ids of the request lines rise
from 1 on, and the only gaps are those of requests without a text (`Numbers`).
What is on the wire: the lines that a program gives a transport are those of a run.
And what comes back: with a prompt server the response to the n-th of some tool
operations, one after the other, has the n-th id, whatever the policy, for an
operation by itself finds the connection free.

The last is an induction on the operations.  A step of a trial is an exchange and
three looks at the client; the looks leave a quiet server quiet.

There is no law without its exceptions: a request that has no text leaves a gap
although no write fails, and a server that takes as long as the client waits is not
heard (`id_without_a_line_and_answer_too_late`).
-/
import Conformance.Proofs.Session.Sharing

namespace Conformance

open Client Connection Board

/-! ## One operation after the other -/

variable {σ : Type} {T : Transport σ} {o : ClientOptions} {v : Service σ}

/-- The inquiry of a tool operation. -/
def Act.inquiry : Act → Option Inquiry
  | .listTools => some toolsInquiry
  | .callTool name arguments =>
      some
        { purpose := .answer, method := Wire.callMethod,
          params := some (Wire.ToolCall.toJson { name, arguments }) }
  | _ => none

theorem asks_of_inquiry {a : Act} {q : Inquiry} (h : a.inquiry = some q) (o : ClientOptions) :
    q.purpose ≠ .opening ∧ ∃ op, a.work = .use op ∧ op.asks o = some q := by
  cases a with
  | listTools =>
      cases h
      exact ⟨nofun, .listTools, rfl, rfl⟩
  | callTool name arguments =>
      cases h
      exact ⟨nofun, .callTool name arguments, rfl, rfl⟩
  | _ => exact nomatch h

/-- A question that is asked when no one else uses the client is answered at once. -/
theorem gather_of_query (T : Transport σ) (o : ClientOptions) (q : Query) (s : Session σ) :
    gather T o .all none [{ work := .use (.ask q) }] s
      = ((look T s q).1, some [.returned (.ok (look T s q).2)]) := by
  simp only [gather, List.map_cons, List.map_nil, List.length_singleton, passBound]
  rw [Board.run]
  simp [Board.pass, poll, goOn, beginWork, acquire, enter, phases, drive, begin, setTask,
    setPlace, release, setConn, Task.stops, Task.isEnded, dropAll, ending, drop]

theorem inquire_eq (T : Transport σ) (o : ClientOptions) (q : Query) (s : Session σ) :
    inquire T o q s = ((look T s q).1, some (look T s q).2) := by
  rw [inquire, gather_of_query]

/-- An open session with a quiet server, which has given no id beyond `last` by instant `t`. -/
structure Open (v : Service σ) (last : Nat) (t : Instant) (s : Session σ) : Prop where
  state : s.conn.state = .ready
  lastId : s.conn.lastId = last
  quiet : v.quiet last s.now s.wire
  now : s.now ≤ t

/-- A look at the client leaves the session as it is. -/
theorem open_of_look (hv : Prompt T v) {last : Nat} {t : Instant} {s : Session σ}
    (hs : Open v last t s) (q : Query) : Open v last t (look T s q).1 := by
  cases q with
  | connected =>
      rw [look]
      split
      · exact hs
      · exact ⟨hs.state, hs.lastId, hv.looks _ _ _ hs.quiet, hs.now⟩
  | state | server | stderr | lastId => exact hs

/-- One operation on an open session. -/
theorem gather_of_open (hv : Prompt T v) (hlag : v.lag < o.requestTimeout)
    {last : Nat} {t : Instant} {s : Session σ} (hs : Open v last t s) (hroom : last < v.bound)
    (hclock : t + v.lag * 4 + o.requestTimeout < clockEnd) {a : Act} {q : Inquiry}
    (ha : a.inquiry = some q) :
    ∃ s' r, gather T o .all none [{ work := a.work }] s = (s', some [.returned (q.gives r)]) ∧
      v.replies q r ∧ r.id = last + 1 ∧ Open v (last + 1) (t + v.lag * 4) s' := by
  obtain ⟨hq, op, hwork, hop⟩ := asks_of_inquiry ha o
  obtain ⟨hstate, rfl, hquiet, hnow⟩ := hs
  let qs : Nat → Inquiry := fun _ => q
  have hqs : ∀ i, (qs i).purpose ≠ .opening := fun _ => hq
  have hbranches : ∀ (i : Nat) (br : Branch), [({ work := a.work } : Branch)][i]? = some br →
      br.limit = none ∧ ∃ op, br.work = .use op ∧ op.asks o = some (qs i) := by
    intro i br hbr
    cases List.mem_singleton.mp (List.mem_of_getElem? hbr)
    exact ⟨rfl, op, hwork, hop⟩
  have hpause : ∀ br ∈ [({ work := a.work } : Branch)], br.pause ≤ 0 := by simp
  have hfinish : s.now + 0 + v.lag * (4 * 1) ≤ t + v.lag * 4 := Nat.add_le_add_right hnow _
  have hfits : s.conn.lastId + [({ work := a.work } : Branch)].length ≤ v.bound := hroom
  have hlenient : Lenient o [({ work := a.work } : Branch)].length := .inr (Nat.le_refl 1)
  obtain ⟨b, hb, hall, hgather⟩ := underway_of_gather hv hlag hlenient hqs hstate
    hquiet hfits hbranches hpause (Nat.lt_of_le_of_lt (Nat.add_le_add_right hfinish _) hclock)
  obtain ⟨ms, _, hserving⟩ := hb.reached
  have hlength : b.errands.length = 1 := hb.errands ▸ errands_start s _
  have hlast := hlength ▸ lastId_of_ended hserving hall
  obtain ⟨e, he, hending⟩ := ended_of_all hall (i := 0) (by rw [hlength]; exact Nat.one_pos)
  obtain ⟨r, hr, hreplies, rfl⟩ := answer_of_ended hserving he
  have hid := hlast ▸ id_of_counts hserving.counts hr
  refine ⟨b.session, r, ?_, hreplies, Nat.le_antisymm hid.2 hid.1, ?_⟩
  · have hone : (b.tasks.map ending).length = 1 := by
      rw [List.length_map, ← hlength, Board.errands, List.length_map]
    obtain ⟨e', he'⟩ := List.length_eq_one_iff.mp hone
    rw [he'] at hending
    cases hending
    rw [hgather, he']
  · refine ⟨hserving.state, hlast, ?_, Nat.le_trans (Nat.le_trans (Nat.le_add_right _ _)
      hb.soon.now) hfinish⟩
    have hquiet' := hserving.quiet fun i p hp hwaits => by
      obtain ⟨e, he, _⟩ := ended_of_all hall (i := i) (placeOf_isSome_iff.mp (by rw [hp]; rfl))
      cases hp.symm.trans he
      exact hwaits
    rw [hlast] at hquiet'
    exact hquiet'

/-- A step of a trial that does one tool operation on an open session. -/
theorem trialStep_of_open (hv : Prompt T v) (hlag : v.lag < o.requestTimeout)
    {last : Nat} {t : Instant} {s : Session σ} (hs : Open v last t s) (hroom : last < v.bound)
    (hclock : t + v.lag * 4 + o.requestTimeout < clockEnd) {a : Act} {q : Inquiry}
    (ha : a.inquiry = some q) :
    ∃ r, v.replies q r ∧ r.id = last + 1 ∧
      (trialStep T o (.one { act := a }) s).results = [ActResult.of (.returned (q.gives r))] ∧
      (trialStep T o (.one { act := a }) s).lastId = last + 1 ∧
      Open v (last + 1) (t + v.lag * 4) (trialStep T o (.one { act := a }) s).session := by
  obtain ⟨s', r, hgather, hreplies, hid, hs'⟩ :=
    gather_of_open hv hlag hs hroom hclock ha
  have hs₁ := open_of_look hv hs' .state
  have hs₂ := open_of_look hv hs₁ .connected
  have hs₃ := open_of_look hv hs₂ .lastId
  have hacts : (TrialStep.one { act := a }).acts.map TimedAct.branch = [{ work := a.work }] := rfl
  rw [trialStep]
  simp only [hacts, hgather, inquire_eq]
  exact ⟨r, hreplies, hid, rfl, hs₂.lastId, hs₃⟩

/-- Of tool operations one after the other on an open session, the n-th gets the response with
the n-th id. -/
theorem trial_of_open (hv : Prompt T v) (hlag : v.lag < o.requestTimeout) (acts : List Act) :
    ∀ {last : Nat} {t : Instant} {s : Session σ}, Open v last t s →
      last + acts.length ≤ v.bound →
      t + v.lag * (4 * acts.length) + o.requestTimeout < clockEnd →
      ∀ n a q, acts[n]? = some a → a.inquiry = some q → (∀ a ∈ acts, a.inquiry.isSome) →
        ∃ seen r, (trial T o (acts.map fun a => .one { act := a }) s)[n]? = some seen ∧
          v.replies q r ∧ r.id = last + n + 1 ∧ seen.lastId = r.id ∧
          seen.results = [ActResult.of (.returned (q.gives r))] := by
  induction acts with
  | nil => exact fun _ _ _ n a q hn => nomatch hn
  | cons first rest ih =>
      intro last t s hs hroom hclock n a q hn ha hall
      obtain ⟨q₁, hq₁⟩ := Option.isSome_iff_exists.mp (hall first List.mem_cons_self)
      have hstep : v.lag * (4 * (first :: rest).length)
          = v.lag * 4 + v.lag * (4 * rest.length) := by
        rw [List.length_cons, Nat.mul_succ, Nat.mul_add, Nat.add_comm]
      rw [hstep, ← Nat.add_assoc] at hclock
      obtain ⟨r, hreplies, hid, hresults, hlast, hs'⟩ := trialStep_of_open hv hlag hs
        (Nat.lt_of_lt_of_le (Nat.lt_add_of_pos_right (Nat.succ_pos _)) hroom)
        (Nat.lt_of_le_of_lt (Nat.add_le_add_right (Nat.le_add_right _ _) _) hclock) hq₁
      rw [List.map_cons, trial]
      -- the step is kept closed: opening it would run the schedule
      generalize trialStep T o (.one { act := first }) s = seen at hresults hlast hs' ⊢
      cases n with
      | zero =>
          cases hn
          cases hq₁.symm.trans ha
          exact ⟨seen, r, rfl, hreplies, hid, hlast.trans hid.symm, hresults⟩
      | succ n =>
          have hroom' : last + 1 + rest.length ≤ v.bound := by
            rw [Nat.add_right_comm]
            exact hroom
          obtain ⟨seen', r', hseen', hr', hid', hrest⟩ := ih hs' hroom' hclock n a q hn ha
            fun a ha => hall a (List.mem_cons_of_mem _ ha)
          exact ⟨seen', r', hseen', hr', by omega, hrest⟩

/-! ## The law -/

/-- The law of request ids, for every transport.

In every run of a client, whatever fails, is refused or dropped: every line has the id of the
request that it is, and no id if it is a notification; the ids of the request lines rise, so none
is used twice, and are from 1 up to the one given last, the first of them that of a request that
opens the session.  They are all of these ids but those that were spent on requests without a text,
which the first is not; and if no write failed or was dropped, all of them were written in full.
The lines of a run are what a program puts on the wire.

On an open session with a prompt server the response to the n-th of any listings and tool calls,
one after the other, has the n-th id from there, which is that of its request. -/
theorem request_ids (T : Transport σ) (o : ClientOptions) :
    (∀ h, Run o h →
      (∀ l ∈ h.lines, Identified o l) ∧
      h.ids.Pairwise (· < ·) ∧ (∀ id ∈ h.ids, 1 ≤ id ∧ id ≤ h.now.conn.lastId) ∧
      h.ids = (List.range' 1 h.now.conn.lastId).filter (· ∉ h.spent) ∧
      (∀ id ∈ h.spent, 1 < id ∧ id ≤ h.now.conn.lastId) ∧
      (h.broken = [] → h.sent ++ h.underway.toList = h.ids)) ∧
    (∀ (α : Type) (p : Program α) deadline now w,
      ∃ h, Run o h ∧
        h.now = { conn := (p.run T.recording o deadline { now, wire := (w, []) }).1.conn } ∧
        (p.run T.recording o deadline { now, wire := (w, []) }).1.wire.2 = h.lines.map (·.2)) ∧
    ∀ v : Service σ, Prompt T v → v.lag < o.requestTimeout →
      ∀ (acts : List Act) (s : Session σ), (∀ a ∈ acts, a.inquiry.isSome) →
        Open v s.conn.lastId s.now s → s.conn.lastId + acts.length ≤ v.bound →
        s.now + v.lag * (4 * acts.length) + o.requestTimeout < clockEnd →
        ∀ n a q, acts[n]? = some a → a.inquiry = some q →
          ∃ seen r, (trial T o (acts.map fun a => .one { act := a }) s)[n]? = some seen ∧
            v.replies q r ∧ r.id = s.conn.lastId + n + 1 ∧ seen.lastId = r.id ∧
            seen.results = [ActResult.of (.returned (q.gives r))] := by
  refine ⟨fun h hrun => ?_, fun α p deadline now w => ?_, ?_⟩
  · have hn := numbers_of_run hrun
    exact ⟨line_of_run hrun, hn.rise, fun _ => hn.given, hn.ids,
      fun id hid => ⟨one_lt_of_spent hrun id hid, hn.spent id hid⟩, hn.whole⟩
  · exact lines_of_program T o deadline p now w
  · intro v hv hlag acts s hall hs hroom hclock n a q hn ha
    exact trial_of_open hv hlag acts hs hroom hclock n a q hn ha hall

/-- The events that open a session. -/
def openingEvents : List Event :=
  [.start .connect, .written (.ok ()), .heard (.ok (.line "\x7b\"id\":1,\"result\":\x7b\x7d\x7d")),
    .written (.ok ())]

/-- The session is opened and asked for its tools, with a request without a text before that: ids 1
and 3.  From id 1 on a tool call between two listings, at the counting server; nobody is refused. -/
theorem request_ids_of_a_session :
    let h := History.play {} (openingEvents ++ [.start (.unprintable "key must be a string"),
      .start .listTools, .written (.ok ())])
    Run {} h ∧ h.ids = [1, 3] ∧ h.sent = [1, 3] ∧
      ∃ seen r, (trial Counter.transport { policy := .reject }
          ([Act.listTools, .callTool "x" .null, .listTools].map fun a => .one { act := a })
          countedSession)[1]? = some seen ∧
        r.id = 3 ∧ seen.lastId = 3 ∧ seen.results = [.response r] := by
  intro h
  obtain ⟨hruns, -⟩ := request_ids Counter.transport {}
  obtain ⟨-, -, hserves⟩ := request_ids Counter.transport { policy := .reject }
  have hrun : Run {} h := run_play _ _
  obtain ⟨-, -, -, hids, -, hwhole⟩ := hruns h hrun
  have hthree : h.ids = [1, 3] := hids.trans rfl
  have hsent := (hwhole rfl).trans hthree
  rw [show h.underway = none from rfl, Option.toList_none, List.append_nil] at hsent
  refine ⟨hrun, hthree, hsent, ?_⟩
  obtain ⟨seen, r, hseen, _, hid, hlast, hresults⟩ := hserves Counter.service Counter.prompt
    (by decide) [.listTools, .callTool "x" .null, .listTools] countedSession (by decide)
    ⟨rfl, rfl, rfl, Nat.le_refl 0⟩ (by decide) (by decide) 1 _ _ rfl rfl
  exact ⟨seen, r, hseen, hid, hlast.trans hid, hresults⟩

/-- No write fails or is dropped, and of ids 1 to 3 the second is on no line: it was spent on a
request without a text.  And a call at the counting server, which answers it as it answers every
request, gives no response when the client waits no longer than the server takes: the blank line
before the answer uses the wait up. -/
theorem id_without_a_line_and_answer_too_late :
    let h := History.play {} (openingEvents ++ [.start (.unprintable "key must be a string"),
      .start .listTools, .written (.ok ())])
    (Run {} h ∧ h.broken = [] ∧ h.now.conn.lastId = 3 ∧ 2 ∉ h.ids) ∧
    Prompt Counter.transport Counter.service ∧ Open Counter.service 1 0 countedSession ∧
      ∃ seen, trial Counter.transport { requestTimeout := 1 }
          [.one { act := .callTool "x" .null }] countedSession = [seen] ∧
        seen.results = [.failed (.readTimeout 1)] ∧ seen.lastId = 2 := by
  intro h
  refine ⟨⟨run_play _ _, rfl, rfl, by decide⟩, Counter.prompt, ⟨rfl, rfl, rfl, Nat.le_refl 0⟩, ?_⟩
  exact ⟨_, rfl, rfl, rfl⟩

end Conformance
