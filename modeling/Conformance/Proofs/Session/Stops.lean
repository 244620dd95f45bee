/-
Conformance — the stops of a server.

A server is stopped where a shutdown starts, and nowhere else: a transport that counts its
stops counts none while a program runs in which no shutdown starts
(`stops_of_program`), and one at each shutdown (`gather_of_shutdown`).

Which operations can start in a program can be read off it: what starts on a board is
the work of a branch (`work_of_starts`), so the operations of a program are those that its
text names (`calls_of_only`).
-/
import Conformance.Proofs.Session.Fatality
import Conformance.Proofs.Session.Trace

namespace Conformance

open Connection Board

variable {σ : Type} {T : Transport σ} {o : ClientOptions} {b b' : Board σ} {i j : Nat}

/-! ## What starts is the work of a branch -/

/-- The operation of a branch in line is its work. -/
def Board.Queues (b : Board σ) : Prop :=
  ∀ i op, b.placeOf i = some (.queued op) → b.workOf i = some (.use op)

theorem work_of_starts {op : Operation} (hq : Queues b) (h : b.starts i = some op) :
    b.workOf i = some (.use op) := by
  rw [starts] at h
  split at h
  · exact work_of_asks h
  · split at h
    · split at h
      · cases h
        exact hq i _ ‹_›
      · cases h
    · cases h

/-- A branch gets in line only where it asks and the policy lets it wait. -/
theorem queued_of_goes {op : Operation} (h : Goes T o i b b')
    (hp : b'.placeOf j = some (.queued op)) :
    b.placeOf j = some (.queued op) ∨
      j = i ∧ b.asks i = some op ∧ (op.heedsPolicy = true → o.policy = .queue) := by
  by_cases hj : j = i
  · subst hj
    have hlands : ∀ {b₁ : Board σ}, Lands j b₁ b' → False := by
      intro b₁ hlands
      cases hlands with
      | waits _ hwaits =>
          cases eq_of_setPlace hp
          exact hwaits
      | ends => exact nomatch eq_of_setPlace hp
    cases h with
    | still => exact .inl hp
    | rests _ _ _ _ hfree =>
        cases eq_of_setPlace hp
        exact absurd trivial hfree.2
    | rested | refused => exact nomatch eq_of_setPlace hp
    | linesUp hasks _ hpolicy =>
        cases eq_of_setPlace hp
        exact .inr ⟨rfl, hasks, hpolicy⟩
    | enters _ _ hd | handed _ _ hd | wrote _ _ hd | read _ _ hd | stopped _ _ hd =>
        exact (hlands (lands_of_driven hd)).elim
  · rw [placeOf, task_of_goes h hj] at hp
    exact .inl hp

theorem queued_of_drops {op : Operation} (h : Drops i b b')
    (hp : b'.placeOf j = some (.queued op)) : b.placeOf j = some (.queued op) := by
  by_cases hj : j = i
  · subst hj
    cases h with
    | gone => exact hp
    | idle | leaves | letsGo => exact nomatch eq_of_setPlace hp
  · rw [placeOf, task_of_drops h hj] at hp
    exact hp

theorem queues_of_goes (hq : Queues b) (h : Goes T o i b b') : Queues b' := by
  intro j op hp
  rw [workOf_of_goes h]
  rcases queued_of_goes h hp with hold | ⟨rfl, hasks, _⟩
  · exact hq j op hold
  · exact work_of_asks hasks

theorem queues_of_drops (hq : Queues b) (h : Drops i b b') : Queues b' := by
  intro j op hp
  rw [workOf_of_drops h]
  exact hq j op (queued_of_drops h hp)

theorem queues_of_move (hq : Queues b) (m : Move) : Queues (b.move T o m) :=
  keeps_of_move (Q := Queues) (fun _ _ _ => queues_of_goes) (fun _ _ _ => queues_of_drops)
    (fun _ _ => id) hq m

theorem workOf_of_move (b : Board σ) (m : Move) (j : Nat) :
    (b.move T o m).workOf j = b.workOf j :=
  keeps_of_move (Q := fun b' => b'.workOf j = b.workOf j)
    (fun _ _ _ hb h => (workOf_of_goes h j).trans hb)
    (fun _ _ _ hb h => (workOf_of_drops h j).trans hb) (fun _ _ => id) rfl m

/-- What starts along moves is the work of a branch. -/
theorem work_of_along {op : Operation} (ms : List Move) : ∀ {b : Board σ}, Queues b →
    (i, op) ∈ b.along T o starter ms → b.workOf i = some (.use op) := by
  induction ms with
  | nil => exact fun _ hmem => nomatch hmem
  | cons m ms ih =>
      intro b hq hmem
      rw [along_cons] at hmem
      rcases List.mem_append.mp hmem with hnow | hlater
      · cases m with
        | poll k =>
            obtain ⟨op', hop, heq⟩ := Option.map_eq_some_iff.mp (Option.mem_toList.mp hnow)
            cases heq
            exact work_of_starts hq hop
        | drop | clock => exact nomatch hnow
      · rw [← workOf_of_move (T := T) (o := o) b m]
        exact ih (queues_of_move hq m) hlater

theorem queues_start (s : Session σ) (branches : List Branch) :
    Queues (Board.start s branches) := by
  intro i op hp
  obtain ⟨u, hu⟩ := placeOf_start hp
  exact nomatch hu

theorem work_of_start {s : Session σ} {branches : List Branch} {w : Work}
    (h : (Board.start s branches).workOf i = some w) : ∃ br ∈ branches, br.work = w := by
  obtain ⟨t, ht, rfl⟩ := Option.map_eq_some_iff.mp h
  obtain ⟨br, hbr, rfl⟩ := List.mem_map.mp (List.mem_of_getElem? ht)
  exact ⟨br, hbr, rfl⟩

namespace Program

variable {α : Type} {P : Operation → Prop}

/-- All operations that a program names are `P`, and it does not break down of its own accord. -/
def Only (P : Operation → Prop) : Program α → Prop
  | done _ => True
  | crash _ => False
  | sleep _ next => next.Only P
  | clock next => ∀ t, (next t).Only P
  | gather _ branches next =>
      (∀ br ∈ branches, ∀ op, br.work = .use op → P op) ∧ ∀ es, (next es).Only P

/-- The operations that start in a program are among those that it names. -/
theorem calls_of_only {deadline : Option Instant} {op : Operation} (p : Program α) :
    ∀ {s : Session σ}, p.Only P → op ∈ p.calls T o deadline s → P op := by
  induction p with
  | done a | crash m =>
      intro s hp hmem
      cases hmem
  | sleep d next ih =>
      intro s hp hmem
      rw [calls, rounds] at hmem
      split at hmem
      · cases hmem
      · exact ih hp hmem
  | clock next ih => exact fun {s} hp hmem => ih s.now (hp s.now) hmem
  | gather mode branches next ih =>
      intro s hp hmem
      rw [calls, rounds, List.flatMap_cons] at hmem
      rcases List.mem_append.mp hmem with hnow | hlater
      · obtain ⟨⟨i, op'⟩, hstarts, rfl⟩ := List.mem_map.mp hnow
        have hwork := work_of_along _ (queues_start s branches) hstarts
        obtain ⟨br, hbr, huse⟩ := work_of_start hwork
        exact hp.1 br hbr op' huse
      · split at hlater
        · cases hlater
        · split at hlater
          · cases hlater
          · exact ih _ (hp.2 _) hlater

end Program

/-! ## Counting the stops -/

/-- `stops` tells how often a transport was made to stop its server. -/
structure CountsStops {σ : Type} (T : Transport σ) (stops : σ → Nat) : Prop where
  written : ∀ now line w, stops (T.write now line w).after = stops w
  unwritten : ∀ now line t w, stops ((T.write now line w).dropped t) = stops w
  take : ∀ now n w, stops (T.take now n w) = stops w
  connected : ∀ now w, stops (T.connected now w).1 = stops w
  stopped : ∀ now grace w, stops (T.stop now grace w).after = stops w + 1
  unstopped : ∀ now grace w, stops (T.stop now grace w).dropped = stops w + 1

/-- The transport that counts its stops. -/
def Transport.counting {σ : Type} (T : Transport σ) : Transport (σ × Nat) where
  write now line w :=
    { ends := (T.write now line w.1).ends
      after := ((T.write now line w.1).after, w.2)
      result := (T.write now line w.1).result
      dropped := fun t => ((T.write now line w.1).dropped t, w.2) }
  arrivals now w := T.arrivals now w.1
  take now n w := (T.take now n w.1, w.2)
  connected now w := (((T.connected now w.1).1, w.2), (T.connected now w.1).2)
  stop now grace w :=
    { ends := (T.stop now grace w.1).ends
      after := ((T.stop now grace w.1).after, w.2 + 1)
      result := (T.stop now grace w.1).result
      dropped := ((T.stop now grace w.1).dropped, w.2 + 1) }
  stderr now w := T.stderr now w.1

/-- Every transport can be made to count. -/
theorem countsStops_counting (T : Transport σ) : CountsStops T.counting (·.2) :=
  ⟨fun _ _ _ => rfl, fun _ _ _ _ => rfl, fun _ _ _ => rfl, fun _ _ => rfl, fun _ _ _ => rfl,
    fun _ _ _ => rfl⟩

/-! ## No stop without a shutdown -/

section Phases

variable {c : Connection}

theorem shutdown_of_begin {op : Operation} {grace : Duration}
    (h : (c.begin o op).2 = .next (.stop grace)) : op = .shutdown grace := by
  cases op with
  | connect =>
      simp only [begin] at h
      split at h <;> cases h
  | request | unprintable | listTools | notify =>
      simp only [begin] at h
      split at h <;> cases h
  | shutdown g =>
      cases h
      rfl
  | ask q => cases h

theorem not_stop_of_fail (c : Connection) (purpose : Purpose) (e : ClientError)
    (grace : Duration) : (c.fail purpose e).2 ≠ .next (.stop grace) := by
  rw [fail_eq]
  exact nofun

theorem not_stop_of_written (c : Connection) (why : Writing) (r : Except ClientError Unit)
    (grace : Duration) : (c.written why r).2 ≠ .next (.stop grace) := by
  cases why with
  | request => cases r with
    | ok => exact nofun
    | error => exact not_stop_of_fail _ _ _ grace
  | announcement => cases r with
    | ok => exact nofun
    | error => exact not_stop_of_fail _ _ _ grace
  | notification => cases r <;> exact nofun

theorem not_stop_of_settled (c : Connection) (purpose : Purpose) (v : Verdict)
    (grace : Duration) : (c.settled purpose v).2 ≠ .next (.stop grace) := by
  cases v with
  | refuse => exact not_stop_of_fail _ _ _ grace
  | misshapen => exact not_stop_of_fail _ _ _ grace
  | answer r =>
      cases purpose with
      | answer | listing =>
          intro h
          cases h
      | opening =>
          rcases opened_cases { c with inFlight := none } r with ⟨e, _, heq⟩ | ⟨info, _, heq⟩
          · simp only [settled, heq]
            exact not_stop_of_fail _ _ _ grace
          · simp only [settled, heq]
            intro h
            cases h

end Phases

/-- What a branch at this place leaves behind counts `n` stops. -/
def Place.Counts (stops : σ → Nat) (n : Nat) : Place σ → Prop
  | .writing _ s => stops s.after = n ∧ ∀ t, stops (s.dropped t) = n
  | .stopping _ => False
  | _ => True

/-- The transport of a board has counted `n` stops, and none is under way. -/
structure Board.Counted (stops : σ → Nat) (n : Nat) (b : Board σ) : Prop where
  wire : stops b.session.wire = n
  place : ∀ i p, b.placeOf i = some p → p.Counts stops n

section Boards

variable {stops : σ → Nat} {n : Nat}

theorem counts_of_look (hT : CountsStops T stops) (s : Session σ) (q : Query) :
    stops (look T s q).1.wire = stops s.wire := by
  cases q with
  | connected =>
      rw [look]
      split
      · rfl
      · exact hT.connected _ _
  | state | server | stderr | lastId => rfl

theorem counts_of_driven (hT : CountsStops T stops) {c : Connection} {p : Progress}
    (hd : Driven T o i b c p b') (hp : ∀ grace, p ≠ .next (.stop grace))
    (hwire : stops b.session.wire = n) :
    stops b'.session.wire = n ∧ ∀ q, b'.placeOf i = some q → q.Counts stops n := by
  induction hd with
  | ended | overflows | reads =>
      refine ⟨hwire, fun q hq => ?_⟩
      rw [eq_of_setPlace hq]
      trivial
  | @told b c q s r hlook =>
      have hsame := counts_of_look hT (b.setConn c).session q
      rw [hlook] at hsame
      refine ⟨hsame.trans hwire, fun q hq => ?_⟩
      rw [eq_of_setPlace hq]
      trivial
  | writes =>
      refine ⟨hwire, fun q hq => ?_⟩
      rw [eq_of_setPlace hq]
      exact ⟨(hT.written _ _ _).trans hwire, fun t => (hT.unwritten _ _ t _).trans hwire⟩
  | @read b b' c c' p' purpose id _ _ hsettled _ ih =>
      refine ih (fun grace => ?_) ((hT.take _ _ _).trans hwire)
      have hnext := not_stop_of_settled c purpose (b.waitFor T o c id).verdict grace
      rwa [hsettled] at hnext
  | @wrote b b' c c' p' why line _ hwritten _ ih =>
      refine ih (fun grace => ?_) ((hT.written _ _ _).trans hwire)
      have hnext := not_stop_of_written c why (b.sending T line).result grace
      rwa [hwritten] at hnext
  | stops => exact absurd rfl (hp _)
  | stopped => exact absurd rfl (hp _)

theorem counted_of_goes (hT : CountsStops T stops) (hb : Counted stops n b) (h : Goes T o i b b')
    (hstarts : ∀ grace, b.starts i ≠ some (.shutdown grace)) : Counted stops n b' := by
  have hothers : ∀ j p, j ≠ i → b'.placeOf j = some p → p.Counts stops n := by
    intro j p hj hp
    rw [placeOf, task_of_goes h hj] at hp
    exact hb.place j p hp
  have hmoved : stops b'.session.wire = n →
      (∀ q, b'.placeOf i = some q → q.Counts stops n) → Counted stops n b' := by
    refine fun hwire hself => ⟨hwire, fun j p hp => ?_⟩
    by_cases hj : j = i
    · subst hj
      exact hself p hp
    · exact hothers j p hj hp
  have hdriven : ∀ {b₁ : Board σ} {c : Connection} {p : Progress}, Driven T o i b₁ c p b' →
      (∀ grace, p ≠ .next (.stop grace)) → stops b₁.session.wire = n → Counted stops n b' :=
    fun hd hp hwire =>
      hmoved (counts_of_driven hT hd hp hwire).1 (counts_of_driven hT hd hp hwire).2
  cases h with
  | still => exact hb
  | @rests _ p _ _ _ _ hfree =>
      refine hmoved hb.wire fun q hq => ?_
      rw [eq_of_setPlace hq]
      cases p with
      | writing | stopping => exact absurd trivial hfree.1
      | _ => trivial
  | rested | refused | linesUp =>
      refine hmoved hb.wire fun q hq => ?_
      rw [eq_of_setPlace hq]
      trivial
  | enters hasks hfree hd =>
      refine hdriven hd (fun grace hp => ?_) hb.wire
      cases shutdown_of_begin hp
      exact hstarts grace ((starts_of_free hfree).trans hasks)
  | handed hp hi hd =>
      refine hdriven hd (fun grace hp' => ?_) hb.wire
      cases shutdown_of_begin hp'
      exact hstarts grace (starts_of_handed hi hp)
  | wrote hp _ hd =>
      exact hdriven hd (not_stop_of_written _ _ _) (hb.place i _ hp).1
  | read _ _ hd => exact hdriven hd (not_stop_of_settled _ _ _) ((hT.take _ _ _).trans hb.wire)
  | stopped hp => exact (hb.place i _ hp).elim

theorem counted_of_drop (hT : CountsStops T stops) (hb : Counted stops n b) {t : Task σ}
    (hi : b.tasks[i]? = some t) : Counted stops n (drop T i t b) := by
  have hplace := hb.place i t.place (placeOf_of_task hi)
  have hset : ∀ {b₁ : Board σ}, stops b₁.session.wire = n →
      (∀ j, b₁.placeOf j = (b.setPlace i (.ended .cancelled)).placeOf j) → Counted stops n b₁ := by
    refine fun hwire hplaces => ⟨hwire, fun j p hp => ?_⟩
    rw [hplaces] at hp
    by_cases hj : j = i
    · subst hj
      rw [eq_of_setPlace hp]
      trivial
    · rw [placeOf_setPlace_ne _ hj] at hp
      exact hb.place j p hp
  simp only [drop]
  cases hp : t.place with
  | pausing | resting => exact hset hb.wire fun _ => rfl
  | queued op =>
      dsimp only
      split <;> exact hset hb.wire fun _ => rfl
  | writing why s =>
      rw [hp] at hplace
      exact hset (hplace.2 _) fun _ => rfl
  | reading purpose w => exact hset ((hT.take _ _ _).trans hb.wire) fun _ => rfl
  | stopping s =>
      rw [hp] at hplace
      exact hplace.elim
  | ended e => exact hb

theorem counted_of_move (hT : CountsStops T stops) (hb : Counted stops n b) {m : Move}
    (hm : ∀ i grace, b.starter m ≠ some (i, .shutdown grace)) : Counted stops n (b.move T o m) := by
  cases m with
  | clock now => exact ⟨hb.wire, hb.place⟩
  | drop i =>
      show Counted stops n (dropAt T b i)
      rw [dropAt]
      split
      · exact counted_of_drop hT hb ‹_›
      · exact hb
  | poll i =>
      have hstarts : ∀ grace, b.starts i ≠ some (.shutdown grace) := fun grace hop =>
        hm i grace (by rw [starter, hop, Option.map_some])
      show Counted stops n (poll T o b i)
      rw [poll]
      split
      · exact hb
      · rename_i t hi
        have hgoes := counted_of_goes hT hb (goOn_goes T o hi) hstarts
        dsimp only
        split
        · exact hgoes
        · split
          · exact counted_of_drop hT hgoes ‹_›
          · exact hgoes

/-- No stop is counted along moves at which no shutdown starts. -/
theorem counted_of_moves (hT : CountsStops T stops) (ms : List Move) : ∀ {b : Board σ},
    Counted stops n b → (∀ i grace, (i, .shutdown grace) ∉ b.along T o starter ms) →
      Counted stops n (b.moves T o ms) := by
  induction ms with
  | nil => exact fun hb _ => hb
  | cons m ms ih =>
      intro b hb hnone
      rw [along_cons] at hnone
      refine ih (counted_of_move hT hb fun i grace hm => ?_) fun i grace hmem => ?_
      · exact hnone i grace (List.mem_append_left _ (Option.mem_toList.mpr hm))
      · exact hnone i grace (List.mem_append_right _ hmem)

theorem counted_start {s : Session σ} (hs : stops s.wire = n) (branches : List Branch) :
    Counted stops n (Board.start s branches) := by
  refine ⟨hs, fun i p hp => ?_⟩
  obtain ⟨u, rfl⟩ := placeOf_start hp
  trivial

/-- While no shutdown starts in a program the server is not stopped. -/
theorem stops_of_program {α : Type} (hT : CountsStops T stops) {deadline : Option Instant}
    (p : Program α) (s : Session σ) (hnone : ∀ grace, .shutdown grace ∉ p.calls T o deadline s) :
    stops (p.run T o deadline s).1.wire = stops s.wire := by
  refine Program.rounds_induction
    (R := fun s l s' =>
      (∀ grace, .shutdown grace ∉ l.flatMap fun r => (r.1.along T o starter r.2).map (·.2)) →
        stops s'.wire = stops s.wire)
    (fun _ _ _ => rfl) (fun mode branches s hnone => ?_) (fun s₁ s₂ s₃ l l' h h' hnone => ?_)
    p s hnone
  · rw [session_of_gather]
    refine (counted_of_moves hT _ (counted_start rfl branches) fun i grace hmem => ?_).wire
    refine hnone grace ?_
    rw [List.flatMap_singleton]
    exact List.mem_map_of_mem hmem
  · rw [List.flatMap_append] at hnone
    exact (h' fun grace hmem => hnone grace (List.mem_append_right _ hmem)).trans
      (h fun grace hmem => hnone grace (List.mem_append_left _ hmem))

/-! ## A shutdown -/

/-- A shutdown when no one else uses the client stops the server once, and takes as long as
that. -/
theorem gather_of_shutdown (T : Transport σ) (o : ClientOptions) (grace : Duration)
    (s : Session σ) :
    let stop := T.stop s.now grace s.wire
    gather T o .all none [{ work := .use (.shutdown grace) }] s
      = ({ now := max s.now stop.ends
           conn := { s.conn with state := .disconnected }
           wire := stop.after },
        some [.returned (stop.result.map fun _ => .done)]) := by
  intro stop
  have hstop : T.stop s.now grace s.wire = stop := rfl
  generalize stop = st at hstop
  obtain ⟨ends, after, result, dropped⟩ := st
  by_cases hends : ends ≤ s.now
  · simp only [gather, List.map_cons, List.map_nil, List.length_singleton, passBound]
    rw [Board.run]
    cases result <;>
      simp [Board.pass, poll, goOn, beginWork, acquire, enter, phases, drive, begin, setTask,
        setPlace, release, setConn, setWire, Task.stops, Task.isEnded, dropAll, ending, drop,
        Connection.stopped, hstop, hends, Except.map]
  · simp only [gather, List.map_cons, List.map_nil, List.length_singleton, passBound]
    rw [Board.run]
    -- it waits for the end of the stop, and is polled again then
    simp [Board.pass, poll, goOn, beginWork, acquire, enter, phases, drive, begin, setTask,
      setPlace, setConn, Task.stops, Task.isEnded, hstop, hends, handedOver, nextWake, Task.wake,
      setNow]
    rw [Board.run]
    have hle : s.now ≤ ends := Nat.le_of_not_le hends
    cases result <;>
      simp [Board.pass, poll, goOn, phases, drive, setTask, setPlace, release, setConn, setWire,
        Task.stops, Task.isEnded, dropAll, ending, drop, Connection.stopped, hle, Except.map]

end Boards

end Conformance
