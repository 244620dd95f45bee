/-
Conformance — the books of a connection.

A connection keeps five things between operations: its state, the last id that
was given, the id in flight, the mark of what was given up, and what the server
said of itself.  `Kept` is how they agree at every moment, `Covers` which
requests the two ids stand for, and `Precedes` how a connection relates to what
becomes of it.

`Kept` and `Covers` come from the invariants of runs: `Marked` for the ids,
`Numbers` for the lines that were written in full, and the one way into `ready`
for the server's word.  `Precedes` is a law of single events (`Books`), carried
along the run; a mark may be put higher only because the id in flight stands
above it.

A request counts as soon as its write has begun.  A pipe may take a line whole
and then report a fault, so for these requests the books are worth something
only on a connection that has not been given up; for those whose write has
ended well they are worth it always.
-/
import Conformance.Proofs.Session.Correlation
import Conformance.Proofs.Session.Numbering
import Conformance.Stdio.Link

namespace Conformance

open Client Connection

namespace Connection

/-- The fields of a connection agree. -/
structure Kept (c : Connection) : Prop where
  flight : c.inFlight = none ∨ c.inFlight = some c.lastId
  mark : ∀ m, c.abandoned = some m → m ≤ c.lastId ∧ ∀ j, c.inFlight = some j → m < j
  server : c.state = .ready → c.server.isSome

/-- Request `id` is in flight or under the mark. -/
def Covers (c : Connection) (id : Nat) : Prop :=
  c.inFlight = some id ∨ ∃ m, c.abandoned = some m ∧ id ≤ m

/-- Neither the last id nor the mark falls from `c` to `c'`. -/
structure Precedes (c c' : Connection) : Prop where
  lastId : c.lastId ≤ c'.lastId
  mark : ∀ m, c.abandoned = some m → ∃ m', c'.abandoned = some m' ∧ m ≤ m'

theorem Precedes.refl (c : Connection) : c.Precedes c :=
  ⟨Nat.le_refl _, fun m hm => ⟨m, hm, Nat.le_refl m⟩⟩

theorem Precedes.trans {c c' c'' : Connection} (h : c.Precedes c') (h' : c'.Precedes c'') :
    c.Precedes c'' := by
  refine ⟨Nat.le_trans h.lastId h'.lastId, fun m hm => ?_⟩
  obtain ⟨m', hm', hle⟩ := h.mark m hm
  obtain ⟨m'', hm'', hle'⟩ := h'.mark m' hm'
  exact ⟨m'', hm'', Nat.le_trans hle hle'⟩

end Connection

/-! ## One event -/

section Turns

variable {o : ClientOptions} {s s' : Client} {e : Event} {r : Option Outcome}

/-- The mark rises to the id in flight, or stays. -/
theorem precedes_of_or {c c' : Connection} (hc : c.Kept) (hlast : c.lastId ≤ c'.lastId)
    (hmark : c'.abandoned = c.inFlight.or c.abandoned) : c.Precedes c' := by
  refine ⟨hlast, fun m hm => ?_⟩
  cases hfl : c.inFlight with
  | none => exact ⟨m, by rw [hmark, hfl, Option.none_or, hm], Nat.le_refl m⟩
  | some j =>
      have hlt : m < j := (hc.mark m hm).2 j hfl
      exact ⟨j, by rw [hmark, hfl, Option.some_or], Nat.le_of_lt hlt⟩

theorem precedes_of_same {c c' : Connection} (hlast : c'.lastId = c.lastId)
    (hmark : c'.abandoned = c.abandoned) : c.Precedes c' :=
  ⟨hlast.ge, fun m hm => ⟨m, hmark.trans hm, Nat.le_refl m⟩⟩

theorem precedes_of_books {a f w : Option Nat} (hs : s.conn.Kept) (h : Books s s' a f w) :
    s.conn.Precedes s'.conn := by
  cases h with
  | asks hlast _ hmark => exact precedes_of_or hs (hlast ▸ Nat.le_succ _) hmark
  | spends hlast _ hmark => exact precedes_of_or hs (hlast ▸ Nat.le_succ _) hmark
  | fails _ hlast _ hmark => exact precedes_of_same hlast hmark
  | answers _ hlast _ hmark => exact precedes_of_same hlast hmark
  | keeps hlast _ hmark => exact precedes_of_same hlast hmark

/-- What the server said of itself is stored in the event that makes the connection ready. -/
theorem server_of_turn (h : Turn o s e s' r)
    (hs : s.conn.state = .ready → s.conn.server.isSome) (hready : s'.conn.state = .ready) :
    s'.conn.server.isSome := by
  rcases ready_of_turn h hready with hold | ⟨info, line, hp, rfl⟩
  · have hserver : s.conn.server.isSome := hs hold
    cases h with
    | announced => rfl
    | _ => exact hserver
  · cases h with
    | announced => rfl
    | sent hp' => exact nomatch hp.symm.trans hp'
    | notified hp' => exact nomatch hp.symm.trans hp'

/-- Only the start of an operation puts a request in flight. -/
theorem unflown_of_turn (h : Turn o s e s' r) (he : e.isStart = false)
    (hs : s.conn.inFlight = none) : s'.conn.inFlight = none := by
  cases h with
  | declined | unprintable | asks | notifies | shutsDown | questions => exact nomatch he
  | unsent | answered | listed | opens | unopened | misshapen => rfl
  | sent | announced | unannounced | notified | unnotified | passes | refuses | expires | stopped
  | told | dropped => exact hs

/-- A response that is taken leaves nothing in flight. -/
theorem unflown_of_accepts (h : Turn o s e s' r)
    (ha : (Entry.accepts ⟨s, e, s', r⟩).isSome) : s'.conn.inFlight = none := by
  obtain ⟨own, hown⟩ := Option.isSome_iff_exists.mp ha
  have hw : Entry.answers ⟨s, e, s', r⟩ = some own.id := by
    rw [Entry.answers, hown, Option.map_some]
  have hbooks := books_of_turn h
  rw [hw] at hbooks
  generalize Entry.asks ⟨s, e, s', r⟩ = a, Entry.fails ⟨s, e, s', r⟩ = f at hbooks
  cases hbooks with
  | answers _ _ hfl _ _ => exact hfl

end Turns

/-! ## Runs -/

section Runs

variable {o : ClientOptions} {h : History}

theorem server_of_run (hrun : Run o h) :
    h.now.conn.state = .ready → h.now.conn.server.isSome :=
  run_induction (P := fun h => h.now.conn.state = .ready → h.now.conn.server.isSome) nofun
    (fun _ _ _ _ _ ih hturn => server_of_turn hturn ih) hrun

theorem kept_of_run (hrun : Run o h) : h.now.conn.Kept := by
  have hm : Marked h := marked_of_run hrun
  refine ⟨?_, fun m hab => ?_, server_of_run hrun⟩
  · cases hfl : h.now.conn.inFlight with
    | none => exact .inl rfl
    | some id => exact .inr (congrArg some (hm.flight id hfl).1)
  · obtain ⟨hout, hlt⟩ := hm.mark m hab
    exact ⟨(hm.given m hout.1).2, hlt⟩

theorem precedes_of_append {later earlier : History} (hrun : Run o (later ++ earlier)) :
    earlier.now.conn.Precedes (History.now (later ++ earlier)).conn := by
  induction later with
  | nil => exact .refl _
  | cons x rest ih =>
      have hrest : Run o (rest ++ earlier) := @run_of_append o [x] _ hrun
      have hbooks := books_of_turn (turn_of_entry hrun).2
      exact (ih hrest).trans (precedes_of_books (kept_of_run hrest) hbooks)

theorem unflown_of_append {x : Entry} {later earlier : History}
    (hrun : Run o (later ++ x :: earlier)) (hx : x.accepts.isSome)
    (hlater : ∀ y ∈ later, y.event.isStart = false) :
    (History.now (later ++ x :: earlier)).conn.inFlight = none := by
  induction later with
  | nil =>
      obtain ⟨hbefore, hturn⟩ := turn_of_entry hrun
      rw [← hbefore] at hturn
      exact unflown_of_accepts hturn hx
  | cons y rest ih =>
      have hrest : Run o (rest ++ x :: earlier) := @run_of_append o [y] _ hrun
      have hflown := ih hrest fun z hz => hlater z (List.mem_cons_of_mem _ hz)
      exact unflown_of_turn (turn_of_entry hrun).2 (hlater y List.mem_cons_self) hflown

/-! ## Which requests the ids stand for -/

theorem pending_of_underway {s : Client} {id : Nat}
    (hs : s.writing.bind (·.1.requestId) = some id) : s.pending = some id := by
  obtain ⟨c, phase⟩ := s
  cases phase with
  | none => exact hs
  | some p =>
      cases p with
      | write why line => cases why <;> exact hs
      | await | stop | ask => exact nomatch hs

/-- A write that ends well does not fail. -/
theorem fails_of_sends {x : Entry} {id : Nat} (hx : x.sends = some id) :
    x.before.writing.bind (·.1.requestId) = some id ∧ x.fails = none := by
  obtain ⟨before, event, after, outcome⟩ := x
  cases event with
  | written r =>
      cases r with
      | ok u => exact ⟨hx, rfl⟩
      | error e => exact nomatch hx
  | start | heard | expired | stopped | told | dropped => exact nomatch hx

theorem underway_of_fails {x : Entry} {id : Nat} (hx : x.fails = some id) :
    x.before.writing.bind (·.1.requestId) = some id := by
  obtain ⟨purpose, line, e, hp, _⟩ := fails_eq_some_iff.mp hx
  rw [writing, hp]
  rfl

theorem asks_eq_begins (x : Entry) : x.asks = x.begins.bind (·.1.requestId) := by
  rw [Entry.asks, Entry.begins]
  cases x.after.phase with
  | none => rfl
  | some p =>
      cases p with
      | write why line => cases why <;> rfl
      | await | stop | ask => rfl

theorem mem_ids_iff {id : Nat} : id ∈ h.ids ↔ id ∈ h.asked := by
  simp only [History.ids, History.lines, List.filterMap_reverse, List.mem_reverse, History.asked,
    List.filterMap_filterMap, ← asks_eq_begins]

/-- The write of a request ends once, well or not. -/
theorem not_unsent_of_sent (hrun : Run o h) : ∀ id ∈ h.sent, id ∉ h.unsent := by
  refine run_induction (P := fun h => ∀ id ∈ h.sent, id ∉ h.unsent) (by simp [History.sent]) ?_
    hrun
  intro h e s r hrun ih hturn id hsent hunsent
  have hn : Numbers h := numbers_of_run hrun
  have honce : (h.sent ++ h.underway.toList).Nodup :=
    List.Nodup.sublist hn.sent (hn.rise.imp Nat.ne_of_lt)
  rw [History.sent_cons] at hsent
  rcases List.mem_append.mp hsent with hsent | hnow
  · rcases History.mem_unsent_cons.mp hunsent with hfails | hold
    · have hunder : h.underway = some id := underway_of_fails hfails
      rw [hunder, Option.toList_some] at honce
      exact List.disjoint_of_nodup_append honce hsent (List.mem_singleton_self id)
    · exact ih id hsent hold
  · -- the request that is being written is in flight, so its write has not failed before
    obtain ⟨hunder, hgood⟩ := fails_of_sends (Option.mem_toList.mp hnow)
    have hm : Marked h := marked_of_run hrun
    have hflight := hm.flight id (hm.busy id (pending_of_underway hunder))
    rcases History.mem_unsent_cons.mp hunsent with hfails | hold
    · cases hgood.symm.trans hfails
    · exact hflight.2.2.1 hold

theorem covers_of_sent (hrun : Run o h) {id : Nat} (hid : id ∈ h.sent)
    (hopen : id ∉ h.answered) : h.now.conn.Covers id := by
  have hasked : id ∈ h.asked :=
    mem_ids_iff.mp ((numbers_of_run hrun).sent.mem (List.mem_append_left _ hid))
  exact (marked_of_run hrun).covered id ⟨hasked, not_unsent_of_sent hrun id hid, hopen⟩

/-- The writes of a run fail only as pipes do. -/
def History.Piped (h : History) : Prop :=
  ∀ x ∈ h, ∀ e, x.event = .written (.error e) → PipeFault e

theorem disconnected_of_unsent (hrun : Run o h) :
    h.Piped → h.unsent ≠ [] → h.now.conn.state = .disconnected := by
  refine run_induction (P := fun h => h.Piped → h.unsent ≠ [] →
    h.now.conn.state = .disconnected) (fun _ hne => absurd rfl hne) ?_ hrun
  intro h e s r hrun ih hturn hpiped hne
  cases hf : Entry.fails ⟨h.now, e, s, r⟩ with
  | some id =>
      obtain ⟨_, _, fault, _, hevent⟩ := fails_eq_some_iff.mp hf
      have hsound : e.Sound := by
        have hfault : PipeFault fault := hpiped _ List.mem_cons_self fault hevent
        rw [show e = .written (.error fault) from hevent]
        exact hfault
      exact disconnected_of_fails hturn hf hsound
  | none =>
      have hold : h.unsent ≠ [] := by
        rw [History.unsent, List.filterMap_cons, hf] at hne
        exact hne
      have hgone := ih (fun x hx => hpiped x (List.mem_cons_of_mem _ hx)) hold
      exact (disconnected_of_turn (fits_of_run hrun) hturn hgone).1

theorem covers_of_asked (hrun : Run o h) (hpiped : h.Piped)
    (hup : h.now.conn.state ≠ .disconnected) {id : Nat} (hid : id ∈ h.asked)
    (hopen : id ∉ h.answered) : h.now.conn.Covers id := by
  have hnone : h.unsent = [] := by
    by_contra hne
    exact hup (disconnected_of_unsent hrun hpiped hne)
  exact (marked_of_run hrun).covered id ⟨hid, by rw [hnone]; exact List.not_mem_nil, hopen⟩

end Runs

/-- The writes of a link to a process fail as pipes do. -/
theorem pipeFault_of_write {l : Stdio.Link} {exited : Option Stdio.ExitStatus}
    {pipe : Except Stdio.PipeError Unit} {e : ClientError}
    (h : l.write exited pipe = .error e) : PipeFault e := by
  unfold Stdio.Link.write at h
  split at h
  · cases h
    exact .closed _
  · split at h
    · cases h
      exact .closed _
    · split at h
      · cases pipe with
        | ok u => exact nomatch h
        | error fault =>
            cases fault with
            | closed cause =>
                cases h
                exact .closed _
            | other cause =>
                cases h
                exact .io cause
      · cases h
        exact .closed _

/-! ## The books -/

section Programs

variable {σ α : Type} {T : Transport σ} {o : ClientOptions}
variable {P : List (String × Bool) → σ → Prop} {s : Session σ} {h : History}

theorem kept_of_follows (hf : Follows o P s h) : s.conn.Kept := by
  have hkept : h.now.conn.Kept := kept_of_run hf.run
  rw [hf.now] at hkept
  exact hkept

/-- A program leaves the last id and the mark where they are, or puts them higher. -/
theorem precedes_of_program (hk : Keeps T P) (hf : Follows o P s h) (deadline : Option Instant)
    (p : Program α) : s.conn.Precedes (p.run T o deadline s).1.conn := by
  obtain ⟨later, hf'⟩ := program_follows hk deadline p hf
  have hprec := precedes_of_append hf'.run
  rw [hf'.now, hf.now] at hprec
  exact hprec

end Programs

/-- The books.  At every moment of a run the fields of the connection agree, and
each request that was written in full and not answered is in flight or under the
mark; so is each whose write has begun, unless the connection is given up, if
writes fail only as pipes do.  Neither the last id nor the mark ever falls.  Once
a response is taken nothing is in flight before the next start.  Programs that
use the same session one after the other, whatever the transport and wherever
their deadlines cut them, leave such books behind. -/
theorem connection_books (o : ClientOptions) :
    (∀ h, Run o h → h.now.conn.Kept ∧
      (∀ id ∈ h.sent, id ∉ h.answered → h.now.conn.Covers id) ∧
      (h.Piped → h.now.conn.state ≠ .disconnected →
        ∀ id ∈ h.asked, id ∉ h.answered → h.now.conn.Covers id)) ∧
    (∀ later earlier, Run o (later ++ earlier) →
      earlier.now.conn.Precedes (History.now (later ++ earlier)).conn) ∧
    (∀ later x earlier, Run o (later ++ x :: earlier) → x.accepts.isSome →
      (∀ y ∈ later, y.event.isStart = false) →
      (History.now (later ++ x :: earlier)).conn.inFlight = none) ∧
    ∀ {σ α β : Type} (T : Transport σ) (now : Instant) (w : σ) (p : Program α) (q : Program β)
      (first second : Option Instant),
      let s := (p.run T o first { now, wire := w }).1
      let s' := (q.run T o second s).1
      s.conn.Kept ∧ s'.conn.Kept ∧ s.conn.Precedes s'.conn := by
  refine ⟨fun h hrun => ⟨kept_of_run hrun, ?_, ?_⟩, fun _ _ => precedes_of_append,
    fun _ _ _ => unflown_of_append, ?_⟩
  · exact fun id hid hopen => covers_of_sent hrun hid hopen
  · exact fun hpiped hup id hid hopen => covers_of_asked hrun hpiped hup hid hopen
  · intro σ α β T now w p q first second
    have hk : Keeps T fun _ _ => True := keeps_nothing T
    obtain ⟨mid, hmid⟩ := program_follows (o := o) hk first p (follows_start now (w := w) trivial)
    obtain ⟨later, hlater⟩ := program_follows hk second q hmid
    exact ⟨kept_of_follows hmid, kept_of_follows hlater, precedes_of_program hk hmid second q⟩

/-- A session is opened; a listing is written and dropped, the next one is
answered.  The dropped request is under the mark, the answered one is not in
flight any more. -/
theorem connection_books_of_dropped_listing :
    let opening : List Event :=
      [.start .connect, .written (.ok ()),
        .heard (.ok (.line "\x7b\"id\":1,\"result\":\x7b\x7d\x7d")), .written (.ok ())]
    let dropped : List Event := [.start .listTools, .written (.ok ()), .dropped]
    let answered : List Event :=
      [.start .listTools, .written (.ok ()),
        .heard (.ok (.line "\x7b\"id\":3,\"result\":\x7b\x7d\x7d"))]
    let h := History.play {} (opening ++ dropped ++ answered)
    Run {} h ∧ h.now.conn.Kept ∧ h.now.conn.state = .ready ∧ h.now.conn.abandoned = some 2 ∧
      (2 ∈ h.sent ∧ 2 ∉ h.answered ∧ h.Piped ∧ h.now.conn.Covers 2) ∧
      (∃ x earlier, h = x :: earlier ∧ x.accepts.isSome ∧ h.now.conn.inFlight = none) ∧
      (History.play {} opening).now.conn.Precedes h.now.conn := by
  intro opening dropped answered h
  have hrun : Run {} h := run_play _ _
  have hpiped : h.Piped := by
    intro x hx e he
    have hevents : h.map (·.event) = (opening ++ dropped ++ answered).reverse := rfl
    have hmem : x.event ∈ (opening ++ dropped ++ answered).reverse :=
      hevents ▸ List.mem_map_of_mem hx
    rw [he] at hmem
    simp [opening, dropped, answered] at hmem
  obtain ⟨hkept, _, hasked⟩ := (connection_books {}).1 h hrun
  have hcovers : h.now.conn.Covers 2 := hasked hpiped nofun 2 (by decide) (by decide)
  have hflown := (connection_books {}).2.2.1 [] _ _ hrun rfl (by simp)
  have hprec := (connection_books {}).2.1 (h.take 6) (History.play {} opening) hrun
  exact ⟨hrun, hkept, rfl, rfl, ⟨by decide, by decide, hpiped, hcovers⟩, ⟨_, _, rfl, rfl, hflown⟩,
    hprec⟩

end Conformance
