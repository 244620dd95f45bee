/-
Conformance — the ids of requests.

A request gets its id when its operation starts, whatever becomes of it.  So the
ids of the request lines of a run rise, and none is given twice.  An id is missing
on the wire only if its request has no text: it has been spent before that comes
to light (`numbers_of_run`).  All other requests get as far as their write, which
may fail or be dropped; if none does they are all written in full.

`Numbered` is what an event does to these lists, in five clauses; the laws of
runs go by it.  What a run begins to write is what a transport is given to write
(`lines_of_writes`), so the laws are about the wire.
-/
import Conformance.Proofs.Session.Gate
import Conformance.Proofs.Session.Scheduling
import Mathlib.Data.List.Range

namespace Conformance

open Client Connection

/-! ## What is read off a run -/

/-- The id of the request that a line is written for. -/
def Writing.requestId : Writing → Option Nat
  | .request _ id => some id
  | .announcement _ => none
  | .notification => none

namespace Client

/-- The line that is being written. -/
def writing (s : Client) : Option (Writing × String) :=
  match s.phase with
  | some (.write why line) => some (why, line)
  | _ => none

end Client

namespace Entry

/-- The request that is written in full. -/
def sends (x : Entry) : Option Nat :=
  match x.event with
  | .written (.ok _) => x.before.writing.bind (·.1.requestId)
  | _ => none

/-- The request whose write fails or is dropped. -/
def breaks (x : Entry) : Option Nat :=
  match x.event with
  | .written (.error _) => x.before.writing.bind (·.1.requestId)
  | .dropped => x.before.writing.bind (·.1.requestId)
  | _ => none

/-- The request that has no text, and has got an id all the same. -/
def spends (x : Entry) : Option Nat :=
  match x.event with
  | .start (.unprintable _) =>
      if x.before.conn.state = .ready then some x.after.conn.lastId else none
  | _ => none

end Entry

namespace History

/-- The lines whose write has begun, in order. -/
def lines (h : History) : List (Writing × String) := (h.filterMap Entry.begins).reverse

/-- The ids of the request lines, in order. -/
def ids (h : History) : List Nat := h.lines.filterMap (·.1.requestId)

/-- The ids of the requests that were written in full, in order. -/
def sent (h : History) : List Nat := (h.filterMap Entry.sends).reverse

/-- The ids of the requests whose write failed or was dropped, in order. -/
def broken (h : History) : List Nat := (h.filterMap Entry.breaks).reverse

/-- The ids that were spent on requests without a text, in order. -/
def spent (h : History) : List Nat := (h.filterMap Entry.spends).reverse

/-- The id of the request that is being written. -/
def underway (h : History) : Option Nat := h.now.writing.bind (·.1.requestId)

variable (x : Entry) (h : History)

theorem lines_cons : lines (x :: h) = h.lines ++ x.begins.toList := by
  rw [lines, lines, List.filterMap_cons]
  cases x.begins <;> simp

theorem ids_cons : ids (x :: h) = h.ids ++ (x.begins.bind (·.1.requestId)).toList := by
  rw [ids, ids, lines_cons, List.filterMap_append]
  cases x.begins with
  | none => rfl
  | some l => cases hl : l.1.requestId <;> simp [hl]

theorem sent_cons : sent (x :: h) = h.sent ++ x.sends.toList := by
  rw [sent, sent, List.filterMap_cons]
  cases x.sends <;> simp

theorem broken_cons : broken (x :: h) = h.broken ++ x.breaks.toList := by
  rw [broken, broken, List.filterMap_cons]
  cases x.breaks <;> simp

theorem spent_cons : spent (x :: h) = h.spent ++ x.spends.toList := by
  rw [spent, spent, List.filterMap_cons]
  cases x.spends <;> simp

end History

/-- The line of a request has its id, any other line has none; and the request with the first
id opens the session. -/
def Identified (o : ClientOptions) (l : Writing × String) : Prop :=
  (∃ v : Json, l.2 = v.print ∧ v.get? "id" = l.1.requestId.map .nat) ∧
    (l.1.requestId = some 1 → l = (.request .opening 1, (openInquiry o).line 1))

/-! ## What an event does to the ids -/

namespace Client

/-- `Numbered s s' b u w m`: on the way from `s` to `s'` the line of request `b` is begun, id `u`
is spent on a request without a text, request `w` is written in full, and the write of request `m`
fails or is dropped. -/
inductive Numbered (s s' : Client) :
    Option Nat → Option Nat → Option Nat → Option Nat → Prop
  | begins : s'.conn.lastId = s.conn.lastId + 1 → s.writing = none →
      s'.writing.bind (·.1.requestId) = some (s.conn.lastId + 1) →
      Numbered s s' (some (s.conn.lastId + 1)) none none none
  | spends : s'.conn.lastId = s.conn.lastId + 1 → s.writing = none → s'.writing = none →
      Numbered s s' none (some (s.conn.lastId + 1)) none none
  | ends {id : Option Nat} : s'.conn.lastId = s.conn.lastId →
      s.writing.bind (·.1.requestId) = id → s'.writing = none → Numbered s s' none none id none
  | breaks {id : Option Nat} : s'.conn.lastId = s.conn.lastId →
      s.writing.bind (·.1.requestId) = id → s'.writing = none → Numbered s s' none none none id
  | rests : s'.conn.lastId = s.conn.lastId → s.writing = none →
      s'.writing.bind (·.1.requestId) = none → Numbered s s' none none none none

end Client

theorem numbered_of_turn {o : ClientOptions} {s s' : Client} {e : Event} {r : Option Outcome}
    (h : Client.Turn o s e s' r) :
    Client.Numbered s s' ((Entry.begins ⟨s, e, s', r⟩).bind (·.1.requestId))
      (Entry.spends ⟨s, e, s', r⟩) (Entry.sends ⟨s, e, s', r⟩) (Entry.breaks ⟨s, e, s', r⟩) := by
  obtain ⟨c, phase⟩ := s
  cases h with
  | @asks op q hp hd hq =>
      cases hp
      have hspends : ∀ s', Entry.spends ⟨⟨c, none⟩, .start op, s', none⟩ = none := by
        cases op with
        | unprintable => cases hq
        | _ => exact fun _ => rfl
      rw [hspends]
      exact .begins rfl rfl rfl
  | @unprintable cause hp hs =>
      cases hp
      have hspends : ∀ r, Entry.spends ⟨⟨c, none⟩, .start (.unprintable cause),
          { conn := c.spend }, r⟩ = some (c.lastId + 1) := fun _ => if_pos hs
      rw [hspends]
      exact .spends rfl rfl rfl
  | @declined op r hp hd =>
      cases hp
      have hspends : Entry.spends ⟨⟨c, none⟩, .start op, ⟨c, none⟩, some r⟩ = none := by
        cases op with
        | unprintable cause =>
            refine if_neg fun hs => ?_
            rw [declines, refusal_eq_none_iff.mpr hs] at hd
            cases hd
        | _ => rfl
      rw [hspends]
      exact .rests rfl rfl rfl
  | sent hp | announced hp | notified hp =>
      cases hp
      exact .ends rfl rfl rfl
  | unsent hp | unannounced hp | unnotified hp =>
      cases hp
      exact .breaks rfl rfl rfl
  | notifies hp | shutsDown hp | questions hp | passes hp | answered hp | listed hp | opens hp
  | unopened hp | misshapen hp | refuses hp | expires hp | stopped hp | told hp =>
      cases hp
      exact .rests rfl rfl rfl
  | @dropped p hp =>
      cases hp
      exact .breaks rfl rfl rfl

/-- An id is spent in an open session, and is the next. -/
theorem spends_eq_some {s s' : Client} {e : Event} {r : Option Outcome} {b w m : Option Nat}
    {id : Nat} (h : Entry.spends ⟨s, e, s', r⟩ = some id)
    (hx : Client.Numbered s s' b (Entry.spends ⟨s, e, s', r⟩) w m) :
    s.conn.state = .ready ∧ id = s.conn.lastId + 1 := by
  constructor
  · unfold Entry.spends at h
    split at h
    · exact (Option.ite_none_right_eq_some.mp h).1
    · cases h
  · rw [h] at hx
    cases hx
    rfl

/-! ## Runs -/

section Runs

variable {o : ClientOptions} {h : History}

/-- The ids from 1 to `n` but those in `spent`. -/
def idsBut (spent : List Nat) (n : Nat) : List Nat := (List.range' 1 n).filter (· ∉ spent)

theorem mem_idsBut {spent : List Nat} {n id : Nat} :
    id ∈ idsBut spent n ↔ (1 ≤ id ∧ id ≤ n) ∧ id ∉ spent := by
  rw [idsBut, List.mem_filter, List.mem_range'_1, decide_eq_true_iff, Nat.add_comm 1,
    Nat.lt_succ_iff]

/-- The next id is given to a request. -/
theorem idsBut_succ {spent : List Nat} {n : Nat} (h : ∀ id ∈ spent, id ≤ n) :
    idsBut spent (n + 1) = idsBut spent n ++ [n + 1] := by
  have hnew : n + 1 ∉ spent := fun hmem => Nat.not_succ_le_self n (h _ hmem)
  rw [idsBut, List.range'_1_concat, List.filter_append, Nat.add_comm 1]
  simp [hnew, idsBut]

/-- The next id is spent. -/
theorem idsBut_spend (spent : List Nat) (n : Nat) :
    idsBut (spent ++ [n + 1]) (n + 1) = idsBut spent n := by
  rw [idsBut, List.range'_1_concat, List.filter_append, Nat.add_comm 1]
  have hold : (List.range' 1 n).filter (· ∉ spent ++ [n + 1]) = idsBut spent n := by
    refine List.filter_congr fun id hid => ?_
    have hle := List.mem_range'_1.mp hid
    have hne : id ≠ n + 1 := by omega
    simp [hne]
  rw [hold]
  simp

/-- How the lists of ids belong together.  The ids of the request lines are all that were given but
those that were spent on requests without a text.  Among them, in the same order, are the ids of the
requests that were written in full and of the one that is being written; there are no others, unless
a write failed or was dropped. -/
structure Numbers (h : History) : Prop where
  ids : h.ids = idsBut h.spent h.now.conn.lastId
  spent : ∀ id ∈ h.spent, id ≤ h.now.conn.lastId
  sent : (h.sent ++ h.underway.toList).Sublist h.ids
  whole : h.broken = [] → h.sent ++ h.underway.toList = h.ids

theorem Numbers.rise (hn : Numbers h) : h.ids.Pairwise (· < ·) := by
  rw [hn.ids]
  exact (List.pairwise_lt_range' 1).filter _

theorem Numbers.given (hn : Numbers h) {id : Nat} (hid : id ∈ h.ids) :
    1 ≤ id ∧ id ≤ h.now.conn.lastId := by
  rw [hn.ids] at hid
  exact (mem_idsBut.mp hid).1

theorem numbers_nil : Numbers [] where
  ids := rfl
  spent := nofun
  sent := List.Sublist.slnil
  whole := fun _ => rfl

section Step

variable {x : Entry}

/-- The ids when no request gets one. -/
theorem numbers_of_quiet (hn : Numbers h) (hlast : x.after.conn.lastId = h.now.conn.lastId)
    (hbegins : x.begins.bind (·.1.requestId) = none) (hspends : x.spends = none)
    (hunder : x.after.writing.bind (·.1.requestId) = none)
    (hsent : (h.sent ++ x.sends.toList).Sublist (h.sent ++ h.underway.toList))
    (hwhole : x.breaks = none → h.sent ++ x.sends.toList = h.sent ++ h.underway.toList) :
    Numbers (x :: h) := by
  have hids : History.ids (x :: h) = h.ids := by
    rw [History.ids_cons, hbegins, Option.toList_none, List.append_nil]
  have hspent : History.spent (x :: h) = h.spent := by
    rw [History.spent_cons, hspends, Option.toList_none, List.append_nil]
  have hnow : (History.now (x :: h)).conn.lastId = h.now.conn.lastId := hlast
  have hnone : History.underway (x :: h) = none := hunder
  constructor
  · rw [hids, hspent, hnow]
    exact hn.ids
  · rw [hspent, hnow]
    exact hn.spent
  · rw [hids, hnone, Option.toList_none, List.append_nil, History.sent_cons]
    exact hsent.trans hn.sent
  · intro hno
    rw [History.broken_cons, List.append_eq_nil_iff] at hno
    have hbreaks : x.breaks = none := by simpa using hno.2
    rw [hids, hnone, Option.toList_none, List.append_nil, History.sent_cons, hwhole hbreaks]
    exact hn.whole hno.1

/-- The next request gets an id above all others: its line is begun, or it has no text. -/
theorem numbers_of_next (hn : Numbers h) (hlast : x.after.conn.lastId = h.now.conn.lastId + 1)
    (hidle : h.now.writing = none) (hsends : x.sends = none) (hbreaks : x.breaks = none)
    (hunder : x.after.writing.bind (·.1.requestId) = x.begins.bind (·.1.requestId))
    (hids : h.ids ++ (x.begins.bind (·.1.requestId)).toList
      = idsBut (h.spent ++ x.spends.toList) (h.now.conn.lastId + 1))
    (hspends : ∀ id, x.spends = some id → id = h.now.conn.lastId + 1) : Numbers (x :: h) := by
  have hnow : (History.now (x :: h)).conn.lastId = h.now.conn.lastId + 1 := hlast
  have hnone : h.underway = none := by rw [History.underway, hidle, Option.bind_none]
  have hunderway : History.underway (x :: h) = x.begins.bind (·.1.requestId) := hunder
  have hsent : History.sent (x :: h) = h.sent := by
    rw [History.sent_cons, hsends, Option.toList_none, List.append_nil]
  have hold := hn.sent
  have hwhole := hn.whole
  rw [hnone, Option.toList_none, List.append_nil] at hold hwhole
  constructor
  · rw [History.ids_cons, History.spent_cons, hnow]
    exact hids
  · intro id hid
    rw [History.spent_cons] at hid
    rw [hnow]
    rcases List.mem_append.mp hid with hid | hid
    · exact Nat.le_succ_of_le (hn.spent id hid)
    · exact Nat.le_of_eq (hspends id (Option.mem_toList.mp hid))
  · rw [History.ids_cons, hsent, hunderway]
    exact hold.append (List.Sublist.refl _)
  · intro hno
    rw [History.broken_cons, hbreaks, Option.toList_none, List.append_nil] at hno
    rw [History.ids_cons, hsent, hunderway, hwhole hno]

theorem numbers_of_numbered (hn : Numbers h)
    (hx : Client.Numbered h.now x.after (x.begins.bind (·.1.requestId)) x.spends x.sends x.breaks) :
    Numbers (x :: h) := by
  generalize hb : x.begins.bind (·.1.requestId) = b, hu : x.spends = u, hs : x.sends = w,
    hm : x.breaks = m at hx
  cases hx with
  | begins hlast hidle hunder =>
      refine numbers_of_next hn hlast hidle hs hm (hunder.trans hb.symm) ?_ (by rw [hu]; nofun)
      rw [hb, hu, Option.toList_none, List.append_nil, idsBut_succ hn.spent, hn.ids]
      rfl
  | spends hlast hidle hnone =>
      refine numbers_of_next hn hlast hidle hs hm (by rw [hnone, hb]; rfl) ?_ ?_
      · rw [hb, hu, Option.toList_none, List.append_nil, hn.ids]
        exact (idsBut_spend _ _).symm
      · intro id hid
        exact Option.some.inj (hid.symm.trans hu)
  | ends hlast hunder hnone =>
      have hsame : h.sent ++ x.sends.toList = h.sent ++ h.underway.toList := by
        rw [hs, ← hunder]
        rfl
      refine numbers_of_quiet hn hlast hb hu (by rw [hnone]; rfl) ?_ fun _ => hsame
      rw [hsame]
  | breaks hlast hunder hnone =>
      refine numbers_of_quiet hn hlast hb hu (by rw [hnone]; rfl) ?_ fun hno => ?_
      · rw [hs, Option.toList_none, List.append_nil]
        exact List.sublist_append_left _ _
      · rw [hs, History.underway, hunder, ← hm, hno]
  | rests hlast hidle hunder =>
      have hsame : h.sent ++ x.sends.toList = h.sent ++ h.underway.toList := by
        rw [hs, History.underway, hidle]
        rfl
      refine numbers_of_quiet hn hlast hb hu hunder ?_ fun _ => hsame
      rw [hsame]

end Step

theorem numbers_of_run (hrun : Run o h) : Numbers h :=
  run_induction numbers_nil
    (fun _ _ _ _ _ hn hturn => numbers_of_numbered hn (numbered_of_turn hturn)) hrun

/-! ## The lines -/

theorem id_of_request (q : Inquiry) (id : Nat) :
    ∃ v : Json, q.line id = v.print ∧ v.get? "id" = some (.nat id) :=
  ⟨_, rfl, rfl⟩

theorem id_of_notification (n : Wire.Notification) : n.toJson.get? "id" = none := by
  obtain ⟨version, method, params⟩ := n
  cases params <;> rfl

/-- The document of a request has its id; that of a notification has none. -/
theorem document_of_turn {s s' : Client} {e : Event} {r : Option Outcome}
    (hturn : Client.Turn o s e s' r) {why : Writing} {line : String}
    (hp : s'.phase = some (.write why line)) :
    ∃ v : Json, line = v.print ∧ v.get? "id" = why.requestId.map .nat := by
  cases hturn with
  | asks =>
      cases hp
      exact id_of_request _ _
  | notifies | opens =>
      cases hp
      exact ⟨_, rfl, id_of_notification _⟩
  | passes hw => exact nomatch hw.symm.trans hp
  | declined hn => exact nomatch hn.symm.trans hp
  | _ => exact nomatch hp

/-- A connection on which no id was given has not been opened. -/
theorem unopened_of_turn {s s' : Client} {e : Event} {r : Option Outcome} (hfits : s.Fits)
    (hs : s.conn.lastId = 0 → s.conn.state = .created ∨ s.conn.state = .disconnected)
    (hturn : Client.Turn o s e s' r) (hlast : s'.conn.lastId = 0) :
    s'.conn.state = .created ∨ s'.conn.state = .disconnected := by
  obtain ⟨c, phase⟩ := s
  have hfailed : ∀ purpose e, c.lastId = 0 →
      c.failedState purpose e = .created ∨ c.failedState purpose e = .disconnected := by
    intro purpose e hzero
    unfold failedState
    split
    · exact .inr rfl
    · cases purpose with
      | opening => exact .inl rfl
      | answer | listing => exact hs hzero
  cases hturn with
  | asks => exact absurd hlast (Nat.succ_ne_zero _)
  | unprintable => exact absurd hlast (Nat.succ_ne_zero _)
  | shutsDown => exact .inr rfl
  | announced hp =>
      cases hp
      rcases hs hlast with hcreated | hgone
      · exact nomatch hcreated.symm.trans hfits
      · exact nomatch hgone.symm.trans hfits
  | unnotified =>
      dsimp only at hlast ⊢
      split
      · exact .inr rfl
      · exact hs hlast
  | unsent | unannounced | unopened | misshapen | refuses | expires =>
      dsimp only at hlast ⊢
      exact hfailed _ _ hlast
  | _ => exact hs hlast

/-- The first request of a connection opens it. -/
theorem opening_of_turn {s s' : Client} {e : Event} {r : Option Outcome}
    (hs : s.conn.lastId = 0 → s.conn.state = .created ∨ s.conn.state = .disconnected)
    (hturn : Client.Turn o s e s' r) {purpose : Purpose} {line : String}
    (hp : s'.phase = some (.write (.request purpose 1) line)) :
    purpose = .opening ∧ line = (openInquiry o).line 1 := by
  cases hturn with
  | asks _ hd hq =>
      simp only [Option.some.injEq, Phase.write.injEq, Writing.request.injEq] at hp
      obtain ⟨⟨rfl, hid⟩, rfl⟩ := hp
      have hzero : s.conn.lastId = 0 := by omega
      rcases inquiry_cases hd hq with ⟨rfl, _⟩ | ⟨_, hready⟩
      · exact ⟨rfl, by rw [hid]⟩
      · rcases hs hzero with hcreated | hgone
        · exact nomatch hready.symm.trans hcreated
        · exact nomatch hready.symm.trans hgone
  | passes hw => exact nomatch hw.symm.trans hp
  | declined hn => exact nomatch hn.symm.trans hp
  | _ => exact nomatch hp

theorem unopened_of_run (hrun : Run o h) : h.now.conn.lastId = 0 →
    h.now.conn.state = .created ∨ h.now.conn.state = .disconnected :=
  run_induction (P := fun h => h.now.conn.lastId = 0 →
      h.now.conn.state = .created ∨ h.now.conn.state = .disconnected) (fun _ => .inl rfl)
    (fun _ _ _ _ hrun ih hturn => unopened_of_turn (fits_of_run hrun) ih hturn) hrun

/-- The first id is spent on no request without a text, for that needs an open session. -/
theorem one_lt_of_spent (hrun : Run o h) : ∀ id ∈ h.spent, 1 < id := by
  refine run_induction (P := fun h => ∀ id ∈ h.spent, 1 < id) (by simp [History.spent]) ?_ hrun
  intro h e s r hrun ih hturn id hid
  rw [History.spent_cons] at hid
  rcases List.mem_append.mp hid with hid | hid
  · exact ih id hid
  · obtain ⟨hready, rfl⟩ := spends_eq_some (Option.mem_toList.mp hid) (numbered_of_turn hturn)
    refine Nat.succ_lt_succ (Nat.pos_of_ne_zero fun hzero => ?_)
    rcases unopened_of_run hrun hzero with hcreated | hgone
    · exact nomatch hcreated.symm.trans hready
    · exact nomatch hgone.symm.trans hready

theorem line_of_run (hrun : Run o h) : ∀ l ∈ h.lines, Identified o l := by
  refine run_induction (P := fun h => ∀ l ∈ h.lines, Identified o l) (by simp [History.lines]) ?_
    hrun
  intro h e s r hrun ih hturn l hl
  rw [History.lines_cons] at hl
  rcases List.mem_append.mp hl with hl | hl
  · exact ih l hl
  · obtain ⟨why, line⟩ := l
    have hp : s.phase = some (.write why line) :=
      begins_eq_some_iff.mp (Option.mem_toList.mp hl)
    refine ⟨document_of_turn hturn hp, fun hid => ?_⟩
    cases why with
    | request purpose id =>
        cases hid
        obtain ⟨rfl, rfl⟩ := opening_of_turn (unopened_of_run hrun) hturn hp
        rfl
    | announcement | notification => exact nomatch hid

/-- A line that is being written is still being written or has been, and a line that is
begun is being written. -/
theorem writing_of_turn {s s' : Client} {e : Event} {r : Option Outcome}
    (hturn : Client.Turn o s e s' r) :
    (Entry.wrote ⟨s, e, s', r⟩).map (·.1) = s.writing.map (·.2) ∧
      Entry.begins ⟨s, e, s', r⟩ = s'.writing := by
  refine ⟨?_, rfl⟩
  obtain ⟨c, phase⟩ := s
  cases hturn with
  | @dropped p hp =>
      cases hp
      cases p <;> rfl
  | _ hp =>
      cases hp
      rfl

/-- The lines whose write has ended, and the one that is being written, are those whose
write has begun. -/
theorem lines_of_writes (hrun : Run o h) :
    h.writes.map (·.1) ++ (h.now.writing.map (·.2)).toList = h.lines.map (·.2) := by
  refine run_induction (P := fun h =>
    h.writes.map (·.1) ++ (h.now.writing.map (·.2)).toList = h.lines.map (·.2)) rfl ?_ hrun
  intro h e s r _ ih hturn
  obtain ⟨hwrote, hbegins⟩ := writing_of_turn hturn
  have htoList : ∀ {α β : Type} (f : α → β) (x : Option α), x.toList.map f = (x.map f).toList := by
    intro α β f x
    cases x <;> rfl
  rw [writes_cons, History.lines_cons, List.map_append, List.map_append, hbegins, ← ih, htoList,
    htoList, hwrote]
  rfl

/-- What a program gives a transport to write is the lines of a run. -/
theorem lines_of_program {σ α : Type} (T : Transport σ) (o : ClientOptions)
    (deadline : Option Instant) (p : Program α) (now : Instant) (w : σ) :
    let s := (p.run T.recording o deadline { now, wire := (w, []) }).1
    ∃ h, Run o h ∧ h.now = { conn := s.conn } ∧ s.wire.2 = h.lines.map (·.2) := by
  obtain ⟨later, hf⟩ := program_follows (o := o) (keeps_of_records (records_recording T) []) deadline
    p (follows_start now (w := (w, [])) rfl)
  rw [List.append_nil] at hf
  refine ⟨later, hf.run, hf.now, ?_⟩
  have hlines := lines_of_writes hf.run
  rw [hf.now] at hlines
  rw [← hlines]
  exact hf.wire.trans (by simp [writing])

end Runs

end Conformance
