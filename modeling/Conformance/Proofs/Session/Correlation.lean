/-
Conformance — late answers never meet the wrong operation.

A server that keeps the rules answers a request at most once and not before its
write has begun; when it answers, and in which order, is its own affair, and so
is what it says besides (`Proper`).  What it sends is read in the order in which
it was sent, by whichever operation reads next.  `Exchange` is a client and such
a server, over a transport whose writes fail only as pipes do.

The client keeps two ids of all it has asked.  That this is enough comes from
`Marked`: an answer that has not been read belongs to an outstanding request,
and an outstanding request other than the one awaited is under the mark.  So
every foreign answer is silent (`silent_of_foreign`), and no operation ends with
a mismatch or with the answer to another.
-/
import Conformance.Proofs.Session.Gate
import Conformance.Proofs.Wait.Deadline

namespace Conformance

open Client Connection

/-! ## A server that keeps the rules -/

/-- A fault of a pipe. -/
inductive PipeFault : ClientError → Prop
  | closed (reason : String) : PipeFault (.transportClosed reason)
  | io (cause : String) : PipeFault (.io cause)

/-- The error reports a response to another request. -/
def ClientError.isMismatch : ClientError → Bool
  | .idMismatch _ _ => true
  | .handshake e => e.isMismatch
  | _ => false

/-- The id of the response that an item carries. -/
def idOf (item : Except ClientError Incoming) : Option Nat := (responseOf item).map (·.id)

theorem idOf_of_response {item : Except ClientError Incoming} {r : Wire.Response}
    (h : responseOf item = some r) : idOf item = some r.id := by
  rw [idOf, h, Option.map_some]

/-- A server that has sent `sent` may send `item` now: what answers a request is
the first to answer it, after the request was begun.  All that answers nothing
is free, except that a read does not fail with a mismatch of its own. -/
structure Proper (h : History) (sent : List (Except ClientError Incoming))
    (item : Except ClientError Incoming) : Prop where
  answers : ∀ id, idOf item = some id → id ∈ h.asked ∧ id ∉ sent.filterMap idOf
  fault : ∀ e, item = .error e → e.isMismatch = false

/-- What may happen to the client beside reading: anything, but writing and
stopping fail only as pipes do. -/
def Event.Sound : Event → Prop
  | .heard _ => False
  | .written (.error e) => PipeFault e
  | .stopped (.error e) => PipeFault e
  | _ => True

/-- `Exchange o h sent unread`: after `h` the server has sent `sent`, of which
`unread` has not been read. -/
inductive Exchange (o : ClientOptions) :
    History → List (Except ClientError Incoming) → List (Except ClientError Incoming) → Prop
  | nil : Exchange o [] [] []
  | sends {h : History} {sent unread : List (Except ClientError Incoming)}
      {item : Except ClientError Incoming} : Exchange o h sent unread → Proper h sent item →
      Exchange o h (sent ++ [item]) (unread ++ [item])
  | reads {h : History} {sent unread : List (Except ClientError Incoming)}
      {item : Except ClientError Incoming} {s : Client} {r : Option Outcome} :
      Exchange o h sent (item :: unread) → h.now.step o (.heard item) = some (s, r) →
      Exchange o (⟨h.now, .heard item, s, r⟩ :: h) sent unread
  | acts {h : History} {sent unread : List (Except ClientError Incoming)} {e : Event}
      {s : Client} {r : Option Outcome} :
      Exchange o h sent unread → e.Sound → h.now.step o e = some (s, r) →
      Exchange o (⟨h.now, e, s, r⟩ :: h) sent unread

/-! ## Where mismatches come from -/

theorem pipeFault_isFatal {e : ClientError} (h : PipeFault e) : e.isFatal = true := by
  cases h <;> rfl

theorem pipeFault_not_mismatch {e : ClientError} (h : PipeFault e) : e.isMismatch = false := by
  cases h <;> rfl

theorem wrap_isMismatch (purpose : Purpose) (e : ClientError) :
    (purpose.wrap e).isMismatch = e.isMismatch := by
  cases purpose <;> rfl

theorem openFault_not_mismatch {r : Wire.Response} {e : ClientError} (h : OpenFault r e) :
    e.isMismatch = false := by
  cases h <;> rfl

theorem toolsOf_not_mismatch {r : Wire.Response} {e : ClientError}
    (h : toolsOf r = .error e) : e.isMismatch = false := by
  obtain ⟨x, rfl⟩ | ⟨cause, raw, rfl⟩ := toolsOf_error h <;> rfl

theorem declines_not_mismatch {c : Connection} {op : Operation} {e : ClientError}
    (h : c.declines op = some (.error e)) : e.isMismatch = false := by
  have hrefusal : ∀ e, c.refusal = some e → e.isMismatch = false := by
    intro e he
    rw [refusal] at he
    split at he <;> cases he <;> rfl
  cases op with
  | connect =>
      simp only [declines] at h
      split at h <;> cases h
      rfl
  | request | unprintable | listTools | notify =>
      obtain ⟨e', he, heq⟩ := Option.map_eq_some_iff.mp h
      cases heq
      exact hrefusal _ he
  | shutdown | ask => cases h

section Turns

variable {o : ClientOptions} {s s' : Client} {e : Event}

/-- An operation ends with a mismatch at a foreign response that is not silent,
or because the transport says so. -/
theorem mismatch_of_turn {x : ClientError} (h : Turn o s e s' (some (.error x)))
    (hx : x.isMismatch = true) :
    (∃ purpose id item r, s.phase = some (.await purpose id) ∧ e = .heard item ∧
      responseOf item = some r ∧ r.id ≠ id ∧ ¬ Silent id s.conn.abandoned item) ∨
    ∃ fault : ClientError, fault.isMismatch = true ∧
      (e = .heard (.error fault) ∨ e = .written (.error fault) ∨ e = .stopped (.error fault)) := by
  generalize hr : some (Except.error x) = outcome at h
  cases h with
  | declined _ hd =>
      cases hr
      exact nomatch hx.symm.trans (declines_not_mismatch hd)
  | unprintable =>
      cases hr
      exact nomatch hx
  | unsent =>
      cases hr
      rw [wrap_isMismatch] at hx
      exact .inr ⟨_, hx, .inr (.inl rfl)⟩
  | @unannounced info line fault =>
      cases hr
      have hfault : fault.isMismatch = true := hx
      exact .inr ⟨_, hfault, .inr (.inl rfl)⟩
  | unnotified =>
      cases hr
      exact .inr ⟨_, hx, .inr (.inl rfl)⟩
  | @listed item r =>
      cases ht : toolsOf r with
      | ok ts =>
          rw [ht] at hr
          exact nomatch hr
      | error e =>
          rw [ht] at hr
          cases hr
          exact nomatch hx.symm.trans (toolsOf_not_mismatch ht)
  | @unopened item r fault _ _ _ hf =>
      cases hr
      have hfault : fault.isMismatch = true := hx
      exact nomatch hfault.symm.trans (openFault_not_mismatch hf)
  | misshapen | expires =>
      cases hr
      rw [wrap_isMismatch] at hx
      exact nomatch hx
  | refuses hp hd =>
      cases hr
      rw [wrap_isMismatch] at hx
      cases hd with
      | failed => exact .inr ⟨_, hx, .inl rfl⟩
      | foreign hresp hid hmark =>
          refine .inl ⟨_, _, _, _, hp, rfl, hresp, hid, fun hs => ?_⟩
          exact nomatch (judge_of_silent hs).symm.trans
            (judge_of_decides (.foreign hresp hid hmark) : judge _ _ o.requestTimeout _ = _)
      | ended | gaveUp | noJson | noResponse => exact nomatch hx
  | @stopped grace w =>
      cases w with
      | ok u => exact nomatch hr
      | error e =>
          cases hr
          exact .inr ⟨_, hx, .inr (.inr rfl)⟩
  | asks | notifies | shutsDown | questions | sent | announced | notified | passes | answered
  | opens | told | dropped => exact nomatch hr

theorem fails_eq_some_iff {x : Entry} {id : Nat} :
    x.fails = some id ↔ ∃ purpose line e,
      x.before.phase = some (.write (.request purpose id) line) ∧
        x.event = .written (.error e) := by
  rw [Entry.fails]
  constructor
  · intro h
    split at h
    · cases h
      exact ⟨_, _, _, ‹_›, ‹_›⟩
    · exact nomatch h
  · rintro ⟨purpose, line, e, hp, he⟩
    rw [he, hp]

/-- A write that fails as a pipe does ends the connection. -/
theorem disconnected_of_fails {r : Option Outcome} {id : Nat} (h : Turn o s e s' r)
    (hf : Entry.fails ⟨s, e, s', r⟩ = some id) (he : e.Sound) :
    s'.conn.state = .disconnected := by
  obtain ⟨purpose, line, fault, hp, hevent⟩ := fails_eq_some_iff.mp hf
  dsimp only at hp hevent
  subst hevent
  have hfatal : fault.isFatal = true := pipeFault_isFatal he
  cases h with
  | unsent =>
      dsimp only
      unfold failedState
      exact if_pos (by rw [hfatal]; rfl)
  | unannounced hp' => exact nomatch hp.symm.trans hp'
  | unnotified hp' => exact nomatch hp.symm.trans hp'

end Turns

/-! ## What is read, and what is not yet -/

section Exchanges

variable {o : ClientOptions} {h : History} {sent unread : List (Except ClientError Incoming)}

theorem run_of_exchange (hx : Exchange o h sent unread) : Run o h := by
  induction hx with
  | nil => exact .nil
  | sends _ _ ih => exact ih
  | reads _ hs ih => exact .cons ih hs
  | acts _ _ hs ih => exact .cons ih hs

/-- What the server has sent, against what the client has done. -/
structure Served (h : History) (sent unread : List (Except ClientError Incoming)) : Prop where
  asked : ∀ item ∈ sent, ∀ id, idOf item = some id → id ∈ h.asked
  once : (sent.filterMap idOf).Nodup
  faults : ∀ e, .error e ∈ sent → e.isMismatch = false
  order : ∃ read, sent = read ++ unread ∧ ∀ id ∈ h.answered, id ∈ read.filterMap idOf
  broken : h.unsent ≠ [] → h.now.conn.state = .disconnected

theorem idOf_of_answers {before after : Client} {item : Except ClientError Incoming}
    {outcome : Option Outcome} {id : Nat}
    (h : Entry.answers ⟨before, .heard item, after, outcome⟩ = some id) : idOf item = some id := by
  obtain ⟨r, hr, rfl⟩ := Option.map_eq_some_iff.mp h
  rw [Entry.accepts] at hr
  split at hr
  · rename_i heq _
    cases heq
    rw [idOf, (Option.filter_eq_some_iff.mp hr).1]
    rfl
  · cases hr

theorem answers_eq_none {before after : Client} {e : Event} {outcome : Option Outcome}
    (h : ∀ item, e ≠ .heard item) : Entry.answers ⟨before, e, after, outcome⟩ = none := by
  cases e with
  | heard item => exact absurd rfl (h item)
  | _ => rfl

theorem mem_asked_of_mem {x : Entry} {id : Nat} (h' : id ∈ h.asked) :
    id ∈ History.asked (x :: h) :=
  History.mem_asked_cons.mpr (.inr h')

theorem served_of_sends {item : Except ClientError Incoming} (hv : Served h sent unread)
    (hp : Proper h sent item) : Served h (sent ++ [item]) (unread ++ [item]) := by
  refine ⟨?_, ?_, ?_, ?_, hv.broken⟩
  · intro other hin id hid
    rcases List.mem_append.mp hin with hold | hnew
    · exact hv.asked other hold id hid
    · cases List.mem_singleton.mp hnew
      exact (hp.answers id hid).1
  · rw [List.filterMap_append, List.nodup_append]
    refine ⟨hv.once, ?_, ?_⟩
    · cases hid : idOf item <;> simp [hid]
    · intro id hold other hnew heq
      subst heq
      obtain ⟨y, hy, hyid⟩ := List.mem_filterMap.mp hnew
      cases List.mem_singleton.mp hy
      exact (hp.answers id hyid).2 hold
  · intro e hin
    rcases List.mem_append.mp hin with hold | hnew
    · exact hv.faults e hold
    · exact hp.fault e (List.mem_singleton.mp hnew).symm
  · obtain ⟨read, rfl, hread⟩ := hv.order
    exact ⟨read, List.append_assoc _ _ _, hread⟩

theorem served_of_reads {item : Except ClientError Incoming} {s : Client} {r : Option Outcome}
    (hv : Served h sent (item :: unread)) (hrun : Run o h)
    (hturn : Turn o h.now (.heard item) s r) :
    Served (⟨h.now, .heard item, s, r⟩ :: h) sent unread := by
  refine ⟨?_, hv.once, hv.faults, ?_, ?_⟩
  · exact fun other hin id hid => mem_asked_of_mem (hv.asked other hin id hid)
  · obtain ⟨read, rfl, hread⟩ := hv.order
    refine ⟨read ++ [item], by simp, fun id hid => ?_⟩
    rw [List.filterMap_append, List.mem_append]
    rcases History.mem_answered_cons.mp hid with hnew | hold
    · exact .inr (List.mem_filterMap.mpr ⟨item, List.mem_singleton_self _, idOf_of_answers hnew⟩)
    · exact .inl (hread id hold)
  · intro hne
    exact (disconnected_of_turn (fits_of_run hrun) hturn (hv.broken hne)).1

theorem served_of_acts {e : Event} {s : Client} {r : Option Outcome}
    (hv : Served h sent unread) (hrun : Run o h) (he : e.Sound) (hturn : Turn o h.now e s r) :
    Served (⟨h.now, e, s, r⟩ :: h) sent unread := by
  refine ⟨?_, hv.once, hv.faults, ?_, ?_⟩
  · exact fun other hin id hid => mem_asked_of_mem (hv.asked other hin id hid)
  · obtain ⟨read, hsplit, hread⟩ := hv.order
    refine ⟨read, hsplit, fun id hid => ?_⟩
    rcases History.mem_answered_cons.mp hid with hnew | hold
    · have hnone : Entry.answers ⟨h.now, e, s, r⟩ = none := answers_eq_none <| by
        rintro item rfl
        exact he
      exact nomatch hnew.symm.trans hnone
    · exact hread id hold
  · intro hne
    cases hf : Entry.fails ⟨h.now, e, s, r⟩ with
    | some id => exact disconnected_of_fails hturn hf he
    | none =>
        have hold : h.unsent ≠ [] := by
          rw [History.unsent, List.filterMap_cons, hf] at hne
          exact hne
        exact (disconnected_of_turn (fits_of_run hrun) hturn (hv.broken hold)).1

theorem served_of_exchange (hx : Exchange o h sent unread) : Served h sent unread := by
  induction hx with
  | nil => exact ⟨by simp, by simp, by simp, ⟨[], rfl, by simp [History.answered]⟩, absurd rfl⟩
  | sends _ hp ih => exact served_of_sends ih hp
  | reads hx hs ih => exact served_of_reads ih (run_of_exchange hx) (turn_of_step hs)
  | acts hx he hs ih => exact served_of_acts ih (run_of_exchange hx) he (turn_of_step hs)

/-- What has not been read answers a request that has not been answered. -/
theorem new_of_unread (hv : Served h sent unread) {item : Except ClientError Incoming}
    (hin : item ∈ unread) {id : Nat} (hid : idOf item = some id) :
    id ∈ h.asked ∧ id ∉ h.answered := by
  obtain ⟨read, rfl, hread⟩ := hv.order
  refine ⟨hv.asked item (List.mem_append_right _ hin) id hid, fun hold => ?_⟩
  have honce := hv.once
  rw [List.filterMap_append, List.nodup_append] at honce
  exact honce.2.2 id (hread id hold) id (List.mem_filterMap.mpr ⟨item, hin, hid⟩) rfl

/-- While one response is awaited, an answer to another request is silent if
that request was asked and has not been answered. -/
theorem silent_of_foreign (hx : Exchange o h sent unread) {purpose : Purpose} {id : Nat}
    (hp : h.now.phase = some (.await purpose id)) {item : Except ClientError Incoming}
    {r : Wire.Response} (hr : responseOf item = some r) (hid : r.id ≠ id)
    (hasked : r.id ∈ h.asked) (hnew : r.id ∉ h.answered) :
    Silent id h.now.conn.abandoned item := by
  have hm : Marked h := marked_of_run (run_of_exchange hx)
  have hsent : r.id ∉ h.unsent := by
    -- a failed write ends the connection, and then nothing is awaited
    intro hin
    have hfits := fits_of_run (run_of_exchange hx)
    rw [Fits, hp] at hfits
    have hend := (served_of_exchange hx).broken (List.ne_nil_of_mem hin)
    exact purpose_state_ne purpose (hfits.symm.trans hend)
  have hflight : h.now.conn.inFlight = some id := hm.busy id (by rw [pending, hp])
  rcases hm.covered r.id ⟨hasked, hsent, hnew⟩ with hfl | ⟨m, hab, hle⟩
  · exact absurd (Option.some.inj (hfl.symm.trans hflight)) hid
  · exact .late hr hid hab hle

/-- Of what can be read, only the own response decides in the way of responses. -/
theorem silent_of_unread (hx : Exchange o h sent unread) {purpose : Purpose} {id : Nat}
    (hp : h.now.phase = some (.await purpose id)) {item : Except ClientError Incoming}
    (hin : item ∈ unread) {r : Wire.Response} (hr : responseOf item = some r) (hid : r.id ≠ id) :
    Silent id h.now.conn.abandoned item := by
  have hnew := new_of_unread (served_of_exchange hx) hin (idOf_of_response hr)
  exact silent_of_foreign hx hp hr hid hnew.1 hnew.2

theorem not_mismatch_of_exchange (hx : Exchange o h sent unread) :
    ∀ x ∈ h, ∀ e, x.outcome = some (.error e) → e.isMismatch = false := by
  induction hx with
  | nil => exact fun x hin => absurd hin List.not_mem_nil
  | sends _ _ ih => exact ih
  | @reads h sent unread item s r hx hs ih =>
      intro x hin e he
      rcases List.mem_cons.mp hin with rfl | hold
      · dsimp only at he
        subst he
        rw [Bool.eq_false_iff]
        intro hmis
        rcases mismatch_of_turn (turn_of_step hs) hmis with
          ⟨purpose, id, _, r, hp, heq, hr, hid, hns⟩ | ⟨fault, hfault, heq⟩
        · cases heq
          exact hns (silent_of_unread hx hp List.mem_cons_self hr hid)
        · have hitem : item = .error fault := by simpa using heq
          subst hitem
          have hv := served_of_exchange hx
          obtain ⟨read, hsplit, _⟩ := hv.order
          have hmem : .error fault ∈ sent := by simp [hsplit]
          exact nomatch hfault.symm.trans (hv.faults fault hmem)
      · exact ih x hold e he
  | @acts h sent unread ev s r hx hev hs ih =>
      intro x hin e he
      rcases List.mem_cons.mp hin with rfl | hold
      · dsimp only at he
        subst he
        rw [Bool.eq_false_iff]
        intro hmis
        rcases mismatch_of_turn (turn_of_step hs) hmis with
          ⟨_, _, _, _, _, rfl, _⟩ | ⟨fault, hfault, rfl | rfl | rfl⟩
        · exact hev
        · exact hev
        · exact nomatch hfault.symm.trans (pipeFault_not_mismatch hev)
        · exact nomatch hfault.symm.trans (pipeFault_not_mismatch hev)
      · exact ih x hold e he

/-! ## Whose response is taken -/

/-- An operation takes the response of an item: it read the item and did not
go on waiting. -/
structure Entry.Takes (x : Entry) (item : Except ClientError Incoming) (r : Wire.Response) :
    Prop where
  event : x.event = .heard item
  carries : responseOf item = some r
  moves : x.after.phase ≠ x.before.phase

/-- A response that is taken is the own one, or it was refused as foreign. -/
theorem own_of_takes {s s' : Client} {item : Except ClientError Incoming} {out : Option Outcome}
    {r : Wire.Response} (hturn : Turn o s (.heard item) s' out) (hr : responseOf item = some r)
    (hmoves : s'.phase ≠ s.phase) :
    ∃ purpose id, s.phase = some (.await purpose id) ∧
      (r.id ≠ id → ¬ Silent id s.conn.abandoned item) := by
  cases hturn with
  | passes => exact absurd rfl hmoves
  | answered hp hr' | listed hp hr' | opens hp hr' | unopened hp hr' | misshapen hp hr' =>
      cases hr.symm.trans hr'
      exact ⟨_, _, hp, absurd rfl⟩
  | refuses hp hd =>
      refine ⟨_, _, hp, fun _ hs => ?_⟩
      exact nomatch (judge_of_silent hs).symm.trans (judge_of_decides hd)

/-- What an operation gives at an item is the response of the item, or its tools. -/
theorem reply_of_heard {s s' : Client} {item : Except ClientError Incoming} {reply : Reply}
    (hturn : Turn o s (.heard item) s' (some (.ok reply))) :
    ∃ r, responseOf item = some r ∧ s'.phase ≠ s.phase ∧
      (reply = .response r ∨ ∃ ts, reply = .tools ts ∧ toolsOf r = .ok ts) := by
  generalize hout : some (Except.ok reply) = out at hturn
  cases hturn with
  | answered hp hr =>
      cases hout
      exact ⟨_, hr, by rw [hp]; exact nofun, .inl rfl⟩
  | @listed _ r hp hr =>
      cases ht : toolsOf r with
      | error e =>
          rw [ht] at hout
          exact nomatch hout
      | ok ts =>
          rw [ht] at hout
          cases hout
          exact ⟨r, hr, by rw [hp]; exact nofun, .inr ⟨ts, rfl, ht⟩⟩
  | passes | opens | unopened | misshapen | refuses => exact nomatch hout

theorem takes_of_exchange (hx : Exchange o h sent unread) :
    ∀ x ∈ h, ∀ item r, x.Takes item r →
      (∃ purpose, x.before.phase = some (.await purpose r.id)) ∧ item ∈ sent := by
  induction hx with
  | nil => exact fun x hin => absurd hin List.not_mem_nil
  | sends _ _ ih =>
      intro x hin item r ht
      obtain ⟨hp, hsent⟩ := ih x hin item r ht
      exact ⟨hp, List.mem_append_left _ hsent⟩
  | @reads h sent unread item s r hx hs ih =>
      intro x hin item' r' ht
      rcases List.mem_cons.mp hin with rfl | hold
      · obtain ⟨hevent, hr, hmoves⟩ := ht
        cases hevent
        obtain ⟨purpose, id, hp, hnot⟩ := own_of_takes (turn_of_step hs) hr hmoves
        have hid : r'.id = id := by
          by_contra hid
          exact hnot hid (silent_of_unread hx hp List.mem_cons_self hr hid)
        subst hid
        obtain ⟨read, hsplit, _⟩ := (served_of_exchange hx).order
        exact ⟨⟨purpose, hp⟩, by simp [hsplit]⟩
      · exact ih x hold item' r' ht
  | acts hx he hs ih =>
      intro x hin item' r' ht
      rcases List.mem_cons.mp hin with rfl | hold
      · obtain ⟨hevent, _⟩ := ht
        cases hevent
        exact absurd he id
      · exact ih x hold item' r' ht

/-- Of what was sent, one item answers a request. -/
theorem split_of_once {items : List (Except ClientError Incoming)}
    (honce : (items.filterMap idOf).Nodup) {item : Except ClientError Incoming} {id : Nat}
    (hin : item ∈ items) (hid : idOf item = some id) :
    ∃ pre post, items = pre ++ item :: post ∧ ∀ other ∈ pre ++ post, idOf other ≠ some id := by
  obtain ⟨pre, post, rfl⟩ := List.mem_iff_append.mp hin
  refine ⟨pre, post, rfl, fun other hother hother' => ?_⟩
  rw [List.filterMap_append, List.filterMap_cons_some hid, List.nodup_append, List.nodup_cons]
    at honce
  obtain ⟨_, ⟨hpost, _⟩, hpre⟩ := honce
  rcases List.mem_append.mp hother with hl | hr
  · exact hpre id (List.mem_filterMap.mpr ⟨other, hl, hother'⟩) id List.mem_cons_self rfl
  · exact hpost (List.mem_filterMap.mpr ⟨other, hr, hother'⟩)

/-- The request that an operation is busy with is the one that it has begun itself. -/
theorem begun_of_pending (hrun : Run o h) :
    ∀ id, h.now.pending = some id → ∃ own y earlier, h = own ++ y :: earlier ∧
      y.asks = some id ∧ ∀ z ∈ own, ∀ op, z.event ≠ .start op := by
  refine run_induction (P := fun h => ∀ id, h.now.pending = some id →
    ∃ own y earlier, h = own ++ y :: earlier ∧ y.asks = some id ∧
      ∀ z ∈ own, ∀ op, z.event ≠ .start op) nofun ?_ hrun
  intro h e s r _ ih hturn id hid
  have hid' : s.pending = some id := hid
  have hbooks := books_of_turn hturn
  generalize ha : Entry.asks ⟨h.now, e, s, r⟩ = a at hbooks
  generalize Entry.fails ⟨h.now, e, s, r⟩ = f at hbooks
  generalize Entry.answers ⟨h.now, e, s, r⟩ = w at hbooks
  cases hbooks with
  | asks _ _ _ hp =>
      cases hp.symm.trans hid'
      exact ⟨[], _, h, rfl, ha, by simp⟩
  | spends _ _ _ hp | fails _ _ _ _ hp | answers _ _ _ _ hp => exact nomatch hp.symm.trans hid'
  | keeps _ _ _ hp =>
      rcases hp with hp | hp
      · obtain ⟨own, y, earlier, rfl, hy, hown⟩ := ih id (hp.symm.trans hid')
        refine ⟨_ :: own, y, earlier, rfl, hy, fun z hz op => ?_⟩
        rcases List.mem_cons.mp hz with rfl | hz
        · -- a start needs a free connection, and this one is busy
          rintro rfl
          have hbusy := hp.symm.trans hid'
          rw [pending, free_of_start hturn] at hbusy
          exact nomatch hbusy
        · exact hown z hz op
      · exact nomatch hp.symm.trans hid'

/-! ## The answer that comes in time -/

/-- What may come before the own response: what is no response, and the answers
to other requests that were asked and have not been answered. -/
inductive Passable (h : History) (id : Nat) (item : Except ClientError Incoming) : Prop
  | idle : Silent id none item → Passable h id item
  | late {r : Wire.Response} : responseOf item = some r → r.id ≠ id → r.id ∈ h.asked →
      r.id ∉ h.answered → Passable h id item

theorem silent_of_passable (hx : Exchange o h sent unread) {purpose : Purpose} {id : Nat}
    (hp : h.now.phase = some (.await purpose id)) {item : Except ClientError Incoming}
    (hitem : Passable h id item) : Silent id h.now.conn.abandoned item := by
  cases hitem with
  | idle hs =>
      cases hs with
      | blank hb => exact .blank hb
      | message hj hm => exact .message hj hm
      | late _ _ hnone => exact nomatch hnone
  | late hr hid hasked hnew => exact silent_of_foreign hx hp hr hid hasked hnew

/-- With a server that keeps the rules no operation ends with a mismatch; a
response that is taken is the one that was sent for the request that the
operation itself has begun; and an operation whose response is there before the
deadline, behind nothing but idle lines and late answers, takes that response,
whatever was given up before. -/
theorem late_answers (hx : Exchange o h sent unread) :
    (∀ x ∈ h, ∀ e, x.outcome = some (.error e) → e.isMismatch = false) ∧
    (∀ later x earlier, h = later ++ x :: earlier →
      (∀ item r, x.Takes item r →
        (∃ purpose, x.before.phase = some (.await purpose r.id)) ∧
        (∃ own y older, earlier = own ++ y :: older ∧ y.asks = some r.id ∧
          ∀ z ∈ own, ∀ op, z.event ≠ .start op) ∧
        ∃ pre post, sent = pre ++ item :: post ∧
          ∀ other ∈ pre ++ post, idOf other ≠ some r.id) ∧
      ∀ item reply, x.event = .heard item → x.outcome = some (.ok reply) →
        ∃ r, x.Takes item r ∧
          (reply = .response r ∨ ∃ ts, reply = .tools ts ∧ toolsOf r = .ok ts)) ∧
    (∀ purpose id, h.now.phase = some (.await purpose id) →
      ∀ start pre a post r, (pre ++ a :: post).Pairwise (fun b c => b.time ≤ c.time) →
        (∀ b ∈ pre, Passable h id b.item) →
        responseOf a.item = some r → r.id = id → r.misshape = none →
        max start a.time < start + o.requestTimeout →
        await id h.now.conn.abandoned o.requestTimeout (start + o.requestTimeout) start
            (pre ++ a :: post)
          = { ends := max start a.time, taken := pre.length + 1, verdict := .answer r } ∧
        (∀ b ∈ pre, h.now.step o (.heard b.item) = some (h.now, none)) ∧
        h.now.step o (.heard a.item) = some (settle (h.now.conn.settled purpose (.answer r))) ∧
        (purpose = .answer →
          h.now.step o (.heard a.item)
            = some
                ({ conn := { h.now.conn with inFlight := none } }, some (.ok (.response r))))) := by
  refine ⟨not_mismatch_of_exchange hx, ?_, ?_⟩
  · rintro later x earlier rfl
    have hrun : Run o (x :: earlier) := run_of_append (run_of_exchange hx)
    obtain ⟨hbefore, hturn⟩ := turn_of_entry hrun
    have hmem : x ∈ later ++ x :: earlier := by simp
    constructor
    · intro item r ht
      obtain ⟨⟨purpose, hp⟩, hsent⟩ := takes_of_exchange hx x hmem item r ht
      have hid : idOf item = some r.id := idOf_of_response ht.carries
      refine ⟨⟨purpose, hp⟩, ?_, split_of_once (served_of_exchange hx).once hsent hid⟩
      refine begun_of_pending (@run_of_append o [x] _ hrun) r.id ?_
      rw [← hbefore, pending, hp]
    · intro item reply hevent hout
      rw [hevent, hout] at hturn
      obtain ⟨r, hr, hmoves, hreply⟩ := reply_of_heard hturn
      exact ⟨r, ⟨hevent, hr, hbefore ▸ hmoves⟩, hreply⟩
  · intro purpose id hp start pre a post r hsorted hpre hr hid hshape htime
    have hsilent : ∀ b ∈ pre, Silent id h.now.conn.abandoned b.item :=
      fun b hb => silent_of_passable hx hp (hpre b hb)
    have horder : ∀ b ∈ pre, b.time ≤ a.time := fun b hb =>
      (List.pairwise_append.mp hsorted).2.2 b hb a List.mem_cons_self
    have hdeadline : a.time < start + o.requestTimeout :=
      Nat.lt_of_le_of_lt (Nat.le_max_right _ _) htime
    have hcloses : Closes id h.now.conn.abandoned o.requestTimeout start pre a (.answer r) :=
      { positive := Nat.lt_add_right_iff_pos.mp (Nat.lt_of_le_of_lt (Nat.le_max_left _ _) htime)
        silent := hsilent
        early := fun b hb => Nat.lt_of_le_of_lt (horder b hb) hdeadline
        inTime := Nat.le_of_lt hdeadline
        decides := .answer hr hid hshape }
    have hown : h.now.step o (.heard a.item)
        = some (settle (h.now.conn.settled purpose (.answer r))) := by
      rw [step_heard hp, judge_of_own hr hid hshape]
    refine ⟨await_of_closes hcloses horder, fun b hb => ?_, hown, ?_⟩
    · rw [step_heard hp, judge_of_silent (hsilent b hb)]
    · rintro rfl
      exact hown

/-- A session in which request 2 is given up and request 3 is awaited. -/
theorem exchange_after_timeout :
    ∃ h opening, Exchange {} h [opening] [] ∧ idOf opening = some 1 ∧
      h.now.phase = some (.await .answer 3) ∧ h.asked = [3, 2, 1] ∧ h.answered = [1] := by
  let opening : Except ClientError Incoming :=
    .ok (.line "\x7b\"id\":1,\"result\":\x7b\x7d\x7d")
  have hid : idOf opening = some 1 := rfl
  have h2 := (Exchange.nil (o := {}).acts (e := .start .connect) trivial rfl).acts
    (e := .written (.ok ())) trivial rfl
  have h3 := h2.sends (show Proper _ _ opening from
    ⟨fun id hid' => by cases hid.symm.trans hid'; exact ⟨.head _, List.not_mem_nil⟩, nofun⟩)
  have h5 := (h3.reads rfl).acts (e := .written (.ok ()))
    (s := { conn := { lastId := 1, state := .ready, server := some {} } }) trivial rfl
  have h8 := ((h5.acts (e := .start .listTools) trivial rfl).acts
    (e := .written (.ok ())) trivial rfl).acts (e := .expired)
    (s := { conn := { lastId := 2, state := .ready, inFlight := some 2, server := some {} } })
    trivial rfl
  have h10 := (h8.acts (e := .start (.request "x" none)) trivial rfl).acts
    (e := .written (.ok ()))
    (s := ⟨{ lastId := 3, state := .ready, inFlight := some 3, abandoned := some 2,
             server := some {} }, some (.await .answer 3)⟩) trivial rfl
  exact ⟨_, _, h10, hid, rfl, rfl, rfl⟩

/-- Request 2 is given up.  Its answer comes while request 3 is awaited and
passes; the own answer behind it is taken. -/
theorem late_answers_after_timeout :
    let late : Except ClientError Incoming := .ok (.line "\x7b\"id\":2,\"result\":1\x7d")
    let own : Except ClientError Incoming := .ok (.line "\x7b\"id\":3,\"result\":2\x7d")
    let taken : Wire.Response := { id := 3, result := some (.nat 2) }
    ∃ h sent, Exchange {} h sent [late, own] ∧ h.now.phase = some (.await .answer 3) ∧
      (await 3 h.now.conn.abandoned (Duration.ofSecs 30) (0 + Duration.ofSecs 30) 0
        [⟨1, late⟩, ⟨2, own⟩]).verdict = .answer taken ∧
      ∃ x earlier, Exchange {} (x :: earlier) sent [] ∧ x.Takes own taken ∧
        (∀ e, x.outcome = some (.error e) → e.isMismatch = false) ∧
        ∃ mine y older, earlier = mine ++ y :: older ∧ y.asks = some 3 := by
  intro late own taken
  have hlate : responseOf late = some { id := 2, result := some (.nat 1) } := rfl
  have hown : responseOf own = some taken := rfl
  have hlateId : idOf late = some 2 := idOf_of_response hlate
  have hownId : idOf own = some 3 := idOf_of_response hown
  obtain ⟨h, opening, hx, hopening, hp, hasked, hanswered⟩ := exchange_after_timeout
  have hx1 := hx.sends (show Proper h [opening] late from ⟨fun id hid => by
    cases hlateId.symm.trans hid
    simp [hasked, hopening], nofun⟩)
  have hx2 := hx1.sends (show Proper h ([opening] ++ [late]) own from ⟨fun id hid => by
    cases hownId.symm.trans hid
    simp [hasked, hopening, hlateId], nofun⟩)
  have hpre : ∀ b ∈ [(⟨1, late⟩ : Arrival)], Passable h 3 b.item := by
    intro b hb
    cases List.mem_singleton.mp hb
    exact .late hlate (by decide) (by simp [hasked]) (by simp [hanswered])
  obtain ⟨hwait, hpass, -, hgives⟩ := (late_answers hx2).2.2 .answer 3 hp 0 [⟨1, late⟩] ⟨2, own⟩ []
    taken (by simp) hpre hown rfl rfl (by decide)
  have hx4 := (hx2.reads (hpass _ List.mem_cons_self)).reads (hgives rfl)
  have hmoves : none ≠ h.now.phase := by rw [hp]; exact nofun
  refine ⟨h, _, hx2, hp, congrArg Wait.verdict hwait, _, _, hx4, ⟨rfl, hown, hmoves⟩, ?_, ?_⟩
  · exact (late_answers hx4).1 _ List.mem_cons_self
  · obtain ⟨_, ⟨mine, y, older, hsplit, hy, _⟩, _⟩ :=
      ((late_answers hx4).2.1 [] _ _ rfl).1 own taken ⟨rfl, hown, hmoves⟩
    exact ⟨mine, y, older, hsplit, hy⟩

end Exchanges

end Conformance
