/-
Conformance — two servers of which one sends more.

`Pads T T' R` says that a transport delivers what another one does, with skippable lines put in, and
is told from it by nothing else: it writes, stops and is there in the same way, and the items come at
the same instants.  `R` relates the states of the two; it is kept when both have taken the same items,
skippable lines apart.

Two boards are `Like` each other when the clocks and the clients are the same and the branches stand
at the same places.  What the schedule looks at is the same on both: which branches have ended, which
of them stops the others, and when the next one can go on.
-/
import Conformance.Proofs.Session.Moves
import Conformance.Proofs.Wait.Skipping

namespace Conformance

open Board

/-! ## What is compared -/

variable {σ τ : Type}

/-- Two writes that go alike. -/
structure Sending.Like (R : σ → τ → Prop) (s : Sending σ) (s' : Sending τ) : Prop where
  ends : s'.ends = s.ends
  result : s'.result = s.result
  after : R s.after s'.after
  dropped : ∀ t, R (s.dropped t) (s'.dropped t)

/-- Two stops that go alike. -/
structure Stopping.Like (R : σ → τ → Prop) (s : Stopping σ) (s' : Stopping τ) : Prop where
  ends : s'.ends = s.ends
  result : s'.result = s.result
  after : R s.after s'.after
  dropped : R s.dropped s'.dropped

/-- `T'` sends what `T` sends, with skippable lines put in.  What is to come depends on neither side
on when one looks. -/
structure Pads (T : Transport σ) (T' : Transport τ) (R : σ → τ → Prop) : Prop where
  arrivals : ∀ now w w', R w w' → Padded (T.arrivals now w) (T'.arrivals now w')
  steady : ∀ now t w, T.arrivals t w = T.arrivals now w
  steady' : ∀ now t w, T'.arrivals t w = T'.arrivals now w
  take : ∀ now n m w w', R w w' → Cut (T.arrivals now w) (T'.arrivals now w') n m →
    R (T.take now n w) (T'.take now m w')
  write : ∀ now line w w', R w w' → Sending.Like R (T.write now line w) (T'.write now line w')
  connected : ∀ now w w', R w w' →
    R (T.connected now w).1 (T'.connected now w').1 ∧
      (T'.connected now w').2 = (T.connected now w).2
  stop : ∀ now grace w w', R w w' → Stopping.Like R (T.stop now grace w) (T'.stop now grace w')
  stderr : ∀ now w w', R w w' → T'.stderr now w' = T.stderr now w

/-- What is recorded is the same. -/
theorem pads_recording {T : Transport σ} {T' : Transport τ} {R : σ → τ → Prop}
    (h : Pads T T' R) : Pads T.recording T'.recording fun w w' => R w.1 w'.1 ∧ w'.2 = w.2 where
  arrivals now w w' hw := h.arrivals now w.1 w'.1 hw.1
  steady now t w := h.steady now t w.1
  steady' now t w := h.steady' now t w.1
  take now n m w w' hw hcut := ⟨h.take now n m w.1 w'.1 hw.1 hcut, hw.2⟩
  write now line w w' hw := by
    obtain ⟨hends, hresult, hafter, hdropped⟩ := h.write now line w.1 w'.1 hw.1
    have hlog : w'.2 ++ [line] = w.2 ++ [line] := by rw [hw.2]
    exact ⟨hends, hresult, ⟨hafter, hlog⟩, fun t => ⟨hdropped t, hlog⟩⟩
  connected now w w' hw :=
    ⟨⟨(h.connected now w.1 w'.1 hw.1).1, hw.2⟩, (h.connected now w.1 w'.1 hw.1).2⟩
  stop now grace w w' hw := by
    obtain ⟨hends, hresult, hafter, hdropped⟩ := h.stop now grace w.1 w'.1 hw.1
    exact ⟨hends, hresult, ⟨hafter, hw.2⟩, ⟨hdropped, hw.2⟩⟩
  stderr now w w' hw := h.stderr now w.1 w'.1 hw.1

/-- Two clients that know the same at the same instant. -/
structure Session.Like (R : σ → τ → Prop) (s : Session σ) (s' : Session τ) : Prop where
  now : s'.now = s.now
  conn : s'.conn = s.conn
  wire : R s.wire s'.wire

inductive Place.Like (R : σ → τ → Prop) : Place σ → Place τ → Prop
  | pausing (u : Instant) : Like R (.pausing u) (.pausing u)
  | resting (u : Instant) : Like R (.resting u) (.resting u)
  | queued (op : Operation) : Like R (.queued op) (.queued op)
  | writing (why : Writing) {s : Sending σ} {s' : Sending τ} : Sending.Like R s s' →
      Like R (.writing why s) (.writing why s')
  | reading (purpose : Purpose) {w w' : Wait} : w'.ends = w.ends → w'.verdict = w.verdict →
      Like R (.reading purpose w) (.reading purpose w')
  | stopping {s : Stopping σ} {s' : Stopping τ} : Stopping.Like R s s' →
      Like R (.stopping s) (.stopping s')
  | ended (e : Ending) : Like R (.ended e) (.ended e)

structure Task.Like (R : σ → τ → Prop) (t : Task σ) (t' : Task τ) : Prop where
  place : Place.Like R t.place t'.place
  work : t'.work = t.work
  limit : t'.limit = t.limit
  dropAt : t'.dropAt = t.dropAt

namespace Board

/-- Two boards whose branches stand at the same places. -/
structure Like (R : σ → τ → Prop) (b : Board σ) (b' : Board τ) : Prop where
  session : Session.Like R b.session b'.session
  holder : b'.holder = b.holder
  line : b'.line = b.line
  tasks : List.Forall₂ (Task.Like R) b.tasks b'.tasks

end Board

/-! ## Boards alike -/

section Like

variable {R : σ → τ → Prop} {b : Board σ} {b' : Board τ} {i : Nat}

theorem like_modify {P : Task σ → Task τ → Prop} {f : Task σ → Task σ} {g : Task τ → Task τ}
    (hfg : ∀ t t', P t t' → P (f t) (g t')) {ts : List (Task σ)} {ts' : List (Task τ)}
    (h : List.Forall₂ P ts ts') : ∀ i, List.Forall₂ P (ts.modify i f) (ts'.modify i g) := by
  induction h with
  | nil => exact fun i => by cases i <;> exact .nil
  | cons ht hrest ih =>
      rintro (_ | i)
      · exact .cons (hfg _ _ ht) hrest
      · exact .cons ht (ih i)

theorem like_setTask (h : Like R b b') {f : Task σ → Task σ} {g : Task τ → Task τ}
    (hfg : ∀ t t', Task.Like R t t' → Task.Like R (f t) (g t')) (i : Nat) :
    Like R (b.setTask i f) (b'.setTask i g) :=
  ⟨h.session, h.holder, h.line, like_modify hfg h.tasks i⟩

theorem like_setPlace (h : Like R b b') {p : Place σ} {p' : Place τ} (hp : Place.Like R p p')
    (i : Nat) : Like R (b.setPlace i p) (b'.setPlace i p') :=
  like_setTask (f := fun t => { t with place := p }) (g := fun t => { t with place := p' }) h
    (fun _ _ ht => ⟨hp, ht.work, ht.limit, ht.dropAt⟩) i

theorem like_release (h : Like R b b') : Like R b.release b'.release where
  session := h.session
  holder := congrArg List.head? h.line
  line := congrArg List.tail h.line
  tasks := h.tasks

theorem like_setSession (h : Like R b b') {s : Session σ} {s' : Session τ}
    (hs : Session.Like R s s') : Like R { b with session := s } { b' with session := s' } :=
  ⟨hs, h.holder, h.line, h.tasks⟩

theorem like_setConn (h : Like R b b') (c : Connection) : Like R (b.setConn c) (b'.setConn c) :=
  like_setSession h ⟨h.session.now, rfl, h.session.wire⟩

theorem like_setWire (h : Like R b b') {w : σ} {w' : τ} (hw : R w w') :
    Like R (b.setWire w) (b'.setWire w') :=
  like_setSession h ⟨h.session.now, h.session.conn, hw⟩

/-- The limit of a branch starts to count on both boards. -/
theorem like_begun (h : Like R b b') (i : Nat) : Like R (b.begun i) (b'.begun i) := by
  refine like_setTask (f := fun t => { t with dropAt := t.limit.map (b.session.now + ·) })
    (g := fun t => { t with dropAt := t.limit.map (b'.session.now + ·) }) h
    (fun t t' ht => ⟨ht.place, ht.work, ht.limit, ?_⟩) i
  rw [ht.limit, h.session.now]

theorem tasks_of_like (h : Like R b b') (i : Nat) :
    (b.tasks[i]? = none ∧ b'.tasks[i]? = none) ∨
      ∃ t t', b.tasks[i]? = some t ∧ b'.tasks[i]? = some t' ∧ Task.Like R t t' := by
  have htasks := h.tasks
  generalize b.tasks = ts at htasks
  generalize b'.tasks = ts' at htasks
  induction htasks generalizing i with
  | nil => exact .inl ⟨rfl, rfl⟩
  | cons ht _ ih =>
      cases i with
      | zero => exact .inr ⟨_, _, rfl, rfl, ht⟩
      | succ i => exact ih i

/-- What is told alike of two branches is told alike of all. -/
theorem map_of_like {α : Type} {f : Task σ → α} {g : Task τ → α}
    (hfg : ∀ t t', Task.Like R t t' → g t' = f t) (h : Like R b b') :
    b'.tasks.map g = b.tasks.map f := by
  have htasks := h.tasks
  generalize b.tasks = ts at htasks
  generalize b'.tasks = ts' at htasks
  induction htasks with
  | nil => rfl
  | cons ht _ ih => rw [List.map_cons, List.map_cons, hfg _ _ ht, ih]

theorem length_of_like (h : Like R b b') : b'.tasks.length = b.tasks.length :=
  h.tasks.length_eq.symm

variable {t : Task σ} {t' : Task τ}

theorem isEnded_of_like (h : Task.Like R t t') : Task.isEnded t' = Task.isEnded t := by
  obtain ⟨place, work, limit, dropAt⟩ := t
  obtain ⟨place', work', limit', dropAt'⟩ := t'
  cases h.place <;> rfl

theorem stops_of_like (mode : Gather) (h : Task.Like R t t') :
    Task.stops mode t' = Task.stops mode t := by
  obtain ⟨place, work, limit, dropAt⟩ := t
  obtain ⟨place', work', limit', dropAt'⟩ := t'
  cases h.place with
  | ended e => cases e with
      | returned r => cases r <;> rfl
      | cancelled | crashed => rfl
  | _ => rfl

theorem ending_of_like (h : Task.Like R t t') : ending t' = ending t := by
  obtain ⟨place, work, limit, dropAt⟩ := t
  obtain ⟨place', work', limit', dropAt'⟩ := t'
  cases h.place <;> rfl

theorem wake_of_like (h : Task.Like R t t') : Task.wake t' = Task.wake t := by
  obtain ⟨place, work, limit, dropAt⟩ := t
  obtain ⟨place', work', limit', dropAt'⟩ := t'
  cases h.dropAt
  cases h.place with
  | @writing why s s' hs =>
      simp only [Task.wake, hs.ends]
      cases s.ends <;> cases dropAt <;> rfl
  | reading purpose hends => simp only [Task.wake, hends]; cases dropAt <;> rfl
  | stopping hs => simp only [Task.wake, hs.ends]; cases dropAt <;> rfl
  | pausing | resting | queued => cases dropAt <;> rfl
  | ended e => rfl

theorem all_ended_of_like (h : Like R b b') :
    b'.tasks.all Task.isEnded = b.tasks.all Task.isEnded := by
  have hmap := congrArg (List.all · id)
    (map_of_like (f := Task.isEnded) (g := Task.isEnded) (fun _ _ => isEnded_of_like) h)
  simpa only [List.all_map, Function.id_comp] using hmap

theorem nextWake_of_like (h : Like R b b') : b'.nextWake = b.nextWake := by
  have hmap := congrArg (List.filterMap id)
    (map_of_like (f := Task.wake) (g := Task.wake) (fun _ _ => wake_of_like) h)
  simp only [List.filterMap_map, Function.id_comp] at hmap
  rw [nextWake, nextWake, hmap]

theorem handedOver_of_like (h : Like R b b') : b'.handedOver = b.handedOver := by
  simp only [handedOver, h.holder]
  cases b.holder with
  | none => rfl
  | some i =>
      rcases tasks_of_like h i with ⟨ht, ht'⟩ | ⟨t, t', ht, ht', hplace, _, _, _⟩
      · simp only [ht, ht']
      · obtain ⟨place, work, limit, dropAt⟩ := t
        obtain ⟨place', work', limit', dropAt'⟩ := t'
        cases hplace <;> simp only [ht, ht']

end Like

end Conformance
