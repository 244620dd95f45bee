/-
Conformance — every schedule of branches.

The schedule that runs polls the branches in their order and lets time pass when
none of them can go on.  Another one might poll any branch at any moment, late
or never, drop any branch where it stands, and set the clock as it likes.  A
`Move` is one such act.  What holds after every list of moves holds under every
interleaving of the callers, so also of the schedule that runs.

All that a poll and a drop can do is said once, by `Goes` and `Drops`
(`goOn_goes`, `drop_drops`).  Of each move can be told which branch asks for the
connection at it and which operation starts at it (`asks`, `starts`); `along`
gathers what is told along a list of moves.
-/
import Conformance.Proofs.Session.Driving

namespace Conformance

open Client

/-- An act of a scheduler. -/
inductive Move where
  | poll (i : Nat)
  | drop (i : Nat)
  | clock (now : Instant)

/-- The branch that is polled or dropped. -/
def Move.branch : Move → Option Nat
  | .poll i => some i
  | .drop i => some i
  | .clock _ => none

/-- Whether a branch goes on from its place when it is polled; `holds` says that it
holds the connection. -/
def Place.goesOn {σ : Type} (now : Instant) (holds : Prop) : Place σ → Prop
  | .pausing u => u ≤ now
  | .resting u => u ≤ now
  | .queued _ => holds
  | .writing _ s => s.ends.any (· ≤ now) = true
  | .reading _ w => w.ends ≤ now
  | .stopping s => s.ends ≤ now
  | .ended _ => False

namespace Board

variable {σ : Type}

/-- Branches before anything has happened. -/
def start (s : Session σ) (branches : List Branch) : Board σ :=
  { session := s
    tasks := branches.map fun b =>
      { place := .pausing (s.now + b.pause), work := b.work, limit := b.limit } }

/-- Drops the branch, if it is there. -/
def dropAt (T : Transport σ) (b : Board σ) (i : Nat) : Board σ :=
  match b.tasks[i]? with
  | some t => drop T i t b
  | none => b

def move (T : Transport σ) (o : ClientOptions) (b : Board σ) : Move → Board σ
  | .poll i => poll T o b i
  | .drop i => dropAt T b i
  | .clock now => b.setNow now

def moves (T : Transport σ) (o : ClientOptions) (b : Board σ) (ms : List Move) : Board σ :=
  ms.foldl (move T o) b

/-! ## Asking for the connection -/

/-- The operation for which branch `i` asks for the connection when it is polled. -/
def asks (b : Board σ) (i : Nat) : Option Operation :=
  match b.tasks[i]? with
  | some { place := .pausing wakes, work := .use op, .. } =>
      if wakes ≤ b.session.now then some op else none
  | _ => none

section Asking

variable {T : Transport σ} {o : ClientOptions} {b : Board σ} {i : Nat} {op : Operation}

theorem acquire_of_free (h : b.holder = none) :
    acquire T o i op b = enter T o i op { b with holder := some i } := by
  rw [acquire, h]

theorem acquire_of_held (h : b.holder ≠ none) :
    acquire T o i op b =
      if op.heedsPolicy && o.policy = .reject then
        b.setPlace i (.ended (.returned (.error .busy)))
      else { b with line := b.line ++ [i] }.setPlace i (.queued op) := by
  rw [acquire]
  split
  · exact absurd ‹_› h
  · rfl

end Asking

/-! ## All that a poll and a drop can do -/

/-- The limit of branch `i` starts to count. -/
def begun (b : Board σ) (i : Nat) : Board σ :=
  b.setTask i fun t => { t with dropAt := t.limit.map (b.session.now + ·) }

theorem placeOf_begun (b : Board σ) (i j : Nat) : (b.begun i).placeOf j = b.placeOf j := by
  rw [begun, placeOf_setTask]
  exact fun _ => rfl

/-- Branch `i` has something to do when it is polled. -/
def ready (b : Board σ) (i : Nat) : Prop :=
  ∃ p, b.placeOf i = some p ∧ p.goesOn b.session.now (b.holder = some i)

/-- `Goes T o i b b'`: branch `i`, polled on board `b`, goes on as far as `b'`. -/
inductive Goes (T : Transport σ) (o : ClientOptions) (i : Nat) (b : Board σ) : Board σ → Prop
  | still : ¬ b.ready i → Goes T o i b b
  | rests {wakes : Instant} {p : Place σ} : b.placeOf i = some (.pausing wakes) →
      wakes ≤ b.session.now → b.asks i = none → (∀ u, p ≠ .pausing u) →
      ¬ p.waits ∧ ¬ p.isQueued → (∀ u, p = .resting u → b.session.now < u) →
      (∀ e, p = .ended e → e = .returned (.ok .done)) →
      Goes T o i b ((b.begun i).setPlace i p)
  | rested {wakes : Instant} : b.placeOf i = some (.resting wakes) →
      Goes T o i b (b.setPlace i (.ended (.returned (.ok .done))))
  | refused {op : Operation} : b.asks i = some op → b.holder ≠ none →
      op.heedsPolicy = true → o.policy = .reject →
      Goes T o i b ((b.begun i).setPlace i (.ended (.returned (.error .busy))))
  | linesUp {op : Operation} : b.asks i = some op → b.holder ≠ none →
      (op.heedsPolicy = true → o.policy = .queue) →
      Goes T o i b ({ b.begun i with line := b.line ++ [i] }.setPlace i (.queued op))
  | enters {op : Operation} {b' : Board σ} : b.asks i = some op → b.holder = none →
      Driven T o i { b.begun i with holder := some i } (b.session.conn.begin o op).1
        (b.session.conn.begin o op).2 b' → Goes T o i b b'
  | handed {op : Operation} {b' : Board σ} : b.placeOf i = some (.queued op) → b.holder = some i →
      Driven T o i b (b.session.conn.begin o op).1 (b.session.conn.begin o op).2 b' →
      Goes T o i b b'
  | wrote {why : Writing} {s : Sending σ} {b' : Board σ} : b.placeOf i = some (.writing why s) →
      s.ends.any (· ≤ b.session.now) = true →
      Driven T o i (b.setWire s.after) (b.session.conn.written why s.result).1
        (b.session.conn.written why s.result).2 b' → Goes T o i b b'
  | read {purpose : Purpose} {w : Wait} {b' : Board σ} : b.placeOf i = some (.reading purpose w) →
      w.ends ≤ b.session.now →
      Driven T o i (b.setWire (T.take b.session.now w.taken b.session.wire))
        (b.session.conn.settled purpose w.verdict).1 (b.session.conn.settled purpose w.verdict).2
        b' → Goes T o i b b'
  | stopped {s : Stopping σ} {b' : Board σ} : b.placeOf i = some (.stopping s) →
      s.ends ≤ b.session.now →
      Driven T o i (b.setWire s.after) (b.session.conn.stopped s.result).1
        (b.session.conn.stopped s.result).2 b' → Goes T o i b b'

section Inversion

variable {T : Transport σ} {o : ClientOptions} {b : Board σ} {i : Nat} {t : Task σ}

theorem placeOf_of_task (hi : b.tasks[i]? = some t) : b.placeOf i = some t.place := by
  rw [placeOf, hi, Option.map_some]

theorem goes_of_acquire {op : Operation} (hasks : b.asks i = some op) :
    Goes T o i b (acquire T o i op (b.begun i)) := by
  by_cases hfree : b.holder = none
  · have hbegun : (b.begun i).holder = none := hfree
    rw [acquire_of_free hbegun]
    exact .enters hasks hfree (driven_phases T o i _ _ _)
  · have hbegun : (b.begun i).holder ≠ none := hfree
    rw [acquire_of_held hbegun]
    split
    · rename_i hrefuse
      rw [Bool.and_eq_true, decide_eq_true_eq] at hrefuse
      exact .refused hasks hfree hrefuse.1 hrefuse.2
    · rename_i hqueue
      refine .linesUp hasks hfree fun hheeds => ?_
      cases hpolicy : o.policy with
      | queue => rfl
      | reject => exact absurd (by rw [hheeds, hpolicy]; rfl) hqueue

theorem asks_eq_some_iff {op : Operation} (hi : b.tasks[i]? = some t) :
    b.asks i = some op ↔
      ∃ wakes, t.place = .pausing wakes ∧ wakes ≤ b.session.now ∧ t.work = .use op := by
  obtain ⟨place, work, limit, dropAt⟩ := t
  simp only [asks, hi]
  cases place <;> cases work <;> simp [and_comm]

/-- Only a branch in its pause asks for the connection. -/
theorem asks_of_place {p : Place σ} (hp : b.placeOf i = some p) (hpause : ∀ u, p ≠ .pausing u) :
    b.asks i = none := by
  obtain ⟨t, hi, rfl⟩ := Option.map_eq_some_iff.mp hp
  rw [Option.eq_none_iff_forall_ne_some]
  intro op hop
  obtain ⟨u, hu, _⟩ := (asks_eq_some_iff hi).mp hop
  exact hpause u hu

/-- Only a branch whose pause is over asks for the connection. -/
theorem asks_of_not_ready (h : ¬ b.ready i) : b.asks i = none := by
  rw [Option.eq_none_iff_forall_ne_some]
  intro op hop
  cases hi : b.tasks[i]? with
  | none =>
      rw [asks, hi] at hop
      exact nomatch hop
  | some t =>
      obtain ⟨wakes, hp, hle, _⟩ := (asks_eq_some_iff hi).mp hop
      exact h ⟨.pausing wakes, (placeOf_of_task hi).trans (congrArg some hp), hle⟩

theorem pausing_of_asks {op : Operation} (h : b.asks i = some op) :
    ∃ u, b.placeOf i = some (.pausing u) := by
  cases hp : b.placeOf i with
  | none =>
      have hi : b.tasks[i]? = none := Option.map_eq_none_iff.mp hp
      simp only [asks, hi] at h
      cases h
  | some p =>
      cases p with
      | pausing u => exact ⟨u, rfl⟩
      | _ => cases (asks_of_place hp fun _ hpause => by cases hpause).symm.trans h

theorem sane_begun (hs : Sane b) (i : Nat) : Sane (b.begun i) :=
  sane_congr (b := b) rfl rfl (placeOf_begun b i) hs

/-- A branch whose pause is over takes a connection that nobody holds. -/
theorem held_of_begun {op : Operation} (hs : Sane b) (hasks : b.asks i = some op)
    (hfree : b.holder = none) : Held { b.begun i with holder := some i } i := by
  obtain ⟨u, hp⟩ := pausing_of_asks hasks
  refine held_of_free (sane_begun hs i) hfree ?_
  rw [placeOf_begun, hp]
  rfl

/-- A branch whose pause is over asks for the connection, or rests. -/
theorem goes_of_beginWork {wakes : Instant} (hi : b.tasks[i]? = some t)
    (hp : t.place = .pausing wakes) (hwake : wakes ≤ b.session.now) :
    Goes T o i b (beginWork T o i t b) := by
  have hplace : b.placeOf i = some (.pausing wakes) :=
    (placeOf_of_task hi).trans (congrArg some hp)
  simp only [beginWork]
  cases hw : t.work with
  | use op => exact goes_of_acquire ((asks_eq_some_iff hi).mpr ⟨wakes, hp, hwake, hw⟩)
  | rest d =>
      have hnot : b.asks i = none := by
        rw [Option.eq_none_iff_forall_ne_some]
        intro op hop
        obtain ⟨_, _, _, hwork⟩ := (asks_eq_some_iff hi).mp hop
        exact nomatch hw.symm.trans hwork
      dsimp only
      split
      · refine .rests hplace hwake hnot nofun ⟨id, id⟩ nofun fun e he => ?_
        exact (Place.ended.inj he).symm
      · rename_i hpositive
        refine .rests hplace hwake hnot nofun ⟨id, id⟩ (fun u hu => ?_) nofun
        cases hu
        exact Nat.lt_add_of_pos_right (Nat.pos_of_ne_zero hpositive)

theorem goOn_goes (T : Transport σ) (o : ClientOptions) (hi : b.tasks[i]? = some t) :
    Goes T o i b (goOn T o i t b) := by
  have hplace : b.placeOf i = some t.place := placeOf_of_task hi
  have hstill : ∀ {p : Place σ}, b.placeOf i = some p →
      ¬ p.goesOn b.session.now (b.holder = some i) → Goes T o i b b := by
    rintro p hp hnot
    refine .still fun ⟨q, hq, hgoes⟩ => hnot ?_
    cases hp.symm.trans hq
    exact hgoes
  simp only [goOn]
  cases hp : t.place with
  | pausing wakes =>
      rw [hp] at hplace
      dsimp only
      split
      · exact hstill hplace (Nat.not_le.mpr ‹_›)
      · exact goes_of_beginWork hi hp (Nat.not_lt.mp ‹_›)
  | resting wakes =>
      rw [hp] at hplace
      dsimp only
      split
      · exact hstill hplace (Nat.not_le.mpr ‹_›)
      · exact .rested hplace
  | queued op =>
      rw [hp] at hplace
      dsimp only
      split
      · exact .handed hplace ‹_› (driven_phases T o i _ _ _)
      · exact hstill hplace ‹_›
  | writing why s =>
      rw [hp] at hplace
      dsimp only
      split
      · exact .wrote hplace ‹_› (driven_phases T o i _ _ _)
      · exact hstill hplace ‹_›
  | reading purpose w =>
      rw [hp] at hplace
      dsimp only
      split
      · exact hstill hplace (Nat.not_le.mpr ‹_›)
      · exact .read hplace (Nat.not_lt.mp ‹_›) (driven_phases T o i _ _ _)
  | stopping s =>
      rw [hp] at hplace
      dsimp only
      split
      · exact hstill hplace (Nat.not_le.mpr ‹_›)
      · exact .stopped hplace (Nat.not_lt.mp ‹_›) (driven_phases T o i _ _ _)
  | ended e =>
      rw [hp] at hplace
      exact hstill hplace id

end Inversion

/-- `Drops T i b b'`: branch `i`, dropped on board `b`, leaves `b'`. -/
inductive Drops (i : Nat) (b : Board σ) : Board σ → Prop
  | gone : (∀ p, b.placeOf i = some p → ∃ e, p = .ended e) → Drops i b b
  | idle {p : Place σ} : b.placeOf i = some p → ¬ p.waits ∧ ¬ p.isQueued → (∀ e, p ≠ .ended e) →
      Drops i b (b.setPlace i (.ended .cancelled))
  | leaves {op : Operation} : b.placeOf i = some (.queued op) → b.holder ≠ some i →
      Drops i b { b.setPlace i (.ended .cancelled) with line := b.line.filter (· ≠ i) }
  | letsGo {p : Place σ} {w : σ} : b.placeOf i = some p → (p.waits ∨ b.holder = some i) →
      Drops i b ((b.setWire w).setPlace i (.ended .cancelled)).release

theorem drop_drops (T : Transport σ) {b : Board σ} {i : Nat} {t : Task σ}
    (hi : b.tasks[i]? = some t) : Drops i b (drop T i t b) := by
  have hplace : b.placeOf i = some t.place := placeOf_of_task hi
  simp only [drop]
  cases hp : t.place with
  | pausing | resting =>
      rw [hp] at hplace
      exact .idle hplace ⟨id, id⟩ nofun
  | queued op =>
      rw [hp] at hplace
      dsimp only
      split
      · exact .letsGo (w := b.session.wire) hplace (.inr ‹_›)
      · exact .leaves hplace ‹_›
  | writing | reading | stopping =>
      rw [hp] at hplace
      exact .letsGo hplace (.inl trivial)
  | ended e =>
      refine .gone fun p hp' => ⟨e, ?_⟩
      rw [hp] at hplace
      exact Option.some.inj (hp'.symm.trans hplace)

/-! ## What is told of a move -/

/-- The operation that branch `i` starts when it is polled: the connection is
free for it, or was handed over to it. -/
def starts (b : Board σ) (i : Nat) : Option Operation :=
  match b.holder with
  | none => b.asks i
  | some j =>
      if j = i then
        match b.placeOf i with
        | some (.queued op) => some op
        | _ => none
      else none

section Starting

variable {b : Board σ} {i : Nat}

theorem starts_of_free (hfree : b.holder = none) : b.starts i = b.asks i := by
  rw [starts, hfree]

theorem starts_of_held (hi : b.holder ≠ none) (hp : ∀ op, b.holder = some i →
    b.placeOf i ≠ some (.queued op)) : b.starts i = none := by
  rw [starts]
  cases hholder : b.holder with
  | none => exact absurd hholder hi
  | some j =>
      dsimp only
      split
      · rename_i hj
        subst hj
        split
        · exact absurd ‹_› (hp _ hholder)
        · rfl
      · rfl

/-- A branch that is not handed the connection starts only what it asks for now. -/
theorem starts_of_unasked (hasks : b.asks i = none)
    (hp : ∀ op, b.placeOf i = some (.queued op) → b.holder ≠ some i) : b.starts i = none := by
  by_cases hfree : b.holder = none
  · rw [starts_of_free hfree, hasks]
  · exact starts_of_held hfree fun op hi hq => hp op hq hi

theorem starts_of_place {p : Place σ} (hp : b.placeOf i = some p) (hpause : ∀ u, p ≠ .pausing u)
    (hqueued : ¬ p.isQueued) : b.starts i = none := by
  refine starts_of_unasked (asks_of_place hp hpause) fun op hop => ?_
  cases hp.symm.trans hop
  exact absurd trivial hqueued

theorem starts_of_handed {op : Operation} (hi : b.holder = some i)
    (hp : b.placeOf i = some (.queued op)) : b.starts i = some op := by
  simp only [starts, hi, hp, if_true]

theorem starts_of_not_ready (h : ¬ b.ready i) : b.starts i = none :=
  starts_of_unasked (asks_of_not_ready h) fun _ hp hi => h ⟨_, hp, hi⟩

theorem starts_of_pausing {u : Instant} (hp : b.placeOf i = some (.pausing u))
    (hasks : b.asks i = none) : b.starts i = none := by
  refine starts_of_unasked hasks fun op hq => ?_
  cases hp.symm.trans hq

/-- Who asks while somebody holds the connection does not start. -/
theorem starts_of_busy {op : Operation} (hasks : b.asks i = some op) (hheld : b.holder ≠ none) :
    b.starts i = none := by
  obtain ⟨u, hp⟩ := pausing_of_asks hasks
  refine starts_of_held hheld fun op _ hq => ?_
  cases hp.symm.trans hq

theorem starts_of_waits {p : Place σ} (hp : b.placeOf i = some p) (hwaits : p.waits) :
    b.starts i = none := by
  refine starts_of_place hp ?_ ?_
  · rintro u rfl
    exact hwaits
  · cases p with
    | writing | reading | stopping => exact id
    | pausing | resting | queued | ended => exact hwaits.elim

end Starting

/-- The branch that asks for the connection at a move. -/
def asker (b : Board σ) : Move → Option Nat
  | .poll i => (b.asks i).map fun _ => i
  | _ => none

/-- The branch whose operation starts at a move, and the operation. -/
def starter (b : Board σ) : Move → Option (Nat × Operation)
  | .poll i => (b.starts i).map fun op => (i, op)
  | _ => none

/-- What `f` tells along a list of moves. -/
def along {α : Type} (T : Transport σ) (o : ClientOptions) (f : Board σ → Move → Option α) :
    Board σ → List Move → List α
  | _, [] => []
  | b, m :: ms => (f b m).toList ++ along T o f (b.move T o m) ms

section Told

variable {α : Type} {T : Transport σ} {o : ClientOptions} {f : Board σ → Move → Option α}

@[simp]
theorem moves_nil (b : Board σ) : b.moves T o [] = b := rfl

@[simp]
theorem moves_cons (b : Board σ) (m : Move) (ms : List Move) :
    b.moves T o (m :: ms) = (b.move T o m).moves T o ms := rfl

theorem moves_append (b : Board σ) (ms ms' : List Move) :
    b.moves T o (ms ++ ms') = (b.moves T o ms).moves T o ms' := by
  simp only [moves, List.foldl_append]

@[simp]
theorem along_nil (b : Board σ) : b.along T o f [] = [] := rfl

@[simp]
theorem along_cons (b : Board σ) (m : Move) (ms : List Move) :
    b.along T o f (m :: ms) = (f b m).toList ++ (b.move T o m).along T o f ms := rfl

theorem along_append (b : Board σ) (ms ms' : List Move) :
    b.along T o f (ms ++ ms') = b.along T o f ms ++ (b.moves T o ms).along T o f ms' := by
  induction ms generalizing b with
  | nil => rfl
  | cons m ms ih => simp [ih]

end Told

end Board

end Conformance
