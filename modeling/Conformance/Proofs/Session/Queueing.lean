/-
Conformance — the line for the connection.

Branches that share a connection are served in the order in which they asked for
it.  `due` are the branches that have asked and are still to be served: the
holder, if the connection was handed over to it and it was not polled since, and
behind it the line.  What one move does to `due` is one of three things: who asks
comes to its end, who is served leaves its front, who is dropped leaves it
(`due_of_goes`, `due_of_drops`).  So what is served and what is due is, after any moves,
what has asked, in the same order, without those that were dropped or refused
(`order_of_moves`, `fate_of_moves`).

While the operation of a branch waits, the moves of the others leave the
connection and the transport as they are (`waiting_of_moves`).
-/
import Conformance.Proofs.Session.Numbering

namespace Conformance

open Client Board

variable {σ : Type} {T : Transport σ} {o : ClientOptions} {b b' : Board σ} {i j : Nat}

/-! ## Where a drive leads -/

/-- Branch `i` of board `b` goes to wait, or ends and gives the connection on. -/
inductive Lands (i : Nat) (b : Board σ) : Board σ → Prop
  | waits {s : Session σ} {p : Place σ} : s.now = b.session.now → p.waits →
      Lands i b ({ b with session := s }.setPlace i p)
  | ends {s : Session σ} {e : Ending} : s.now = b.session.now →
      Lands i b ({ b with session := s }.setPlace i (.ended e)).release

theorem lands_of_driven {c : Connection} {p : Progress} (h : Driven T o i b c p b') :
    Lands i b b' := by
  induction h with
  | @ended b c r => exact .ends (s := { b.session with conn := c }) rfl
  | @told b c q s r hlook =>
      have hnow : s.now = b.session.now := by
        rw [← show (look T (b.setConn c).session q).1 = s from by rw [hlook]]
        exact now_of_look T _ q
      exact .ends hnow
  | @overflows b c => exact .ends (s := { b.session with conn := c }) rfl
  | @reads b c => exact .waits (s := { b.session with conn := c }) rfl trivial
  | @writes b c => exact .waits (s := { b.session with conn := c }) rfl trivial
  | @stops b c => exact .waits (s := { b.session with conn := c }) rfl trivial
  | read _ _ _ _ ih | wrote _ _ _ ih | stopped _ _ _ ih =>
      cases ih with
      | waits hnow hp => exact .waits hnow hp
      | ends hnow => exact .ends hnow

theorem sane_of_lands (hheld : Held b i) (h : Lands i b b') : Sane b' := by
  cases h with
  | waits _ hp => exact sane_of_waits (held_setSession hheld _) hp
  | ends => exact sane_of_ended (held_setSession hheld _) _

/-- The other branches stay where they are. -/
theorem placeOf_of_lands (h : Lands i b b') (hj : j ≠ i) : b'.placeOf j = b.placeOf j := by
  cases h with
  | waits => exact placeOf_setPlace_ne _ hj
  | ends => exact placeOf_setPlace_ne _ hj

/-! ## What a move keeps -/

/-- Polled, the holder is driven, or what it does leaves the connection alone. -/
theorem sane_of_goes (hs : Sane b) (h : Goes T o i b b') : Sane b' := by
  cases h with
  | still => exact hs
  | rests hp _ _ _ hfree =>
      exact sane_of_moved (sane_begun hs i) ((placeOf_begun b i i).trans hp) ⟨id, id⟩ hfree.1
  | rested hp => exact sane_of_moved hs hp ⟨id, id⟩ id
  | refused hasks =>
      obtain ⟨u, hp⟩ := pausing_of_asks hasks
      exact sane_of_moved (sane_begun hs i) ((placeOf_begun b i i).trans hp) ⟨id, id⟩ id
  | linesUp hasks hheld =>
      obtain ⟨u, hp⟩ := pausing_of_asks hasks
      exact sane_of_lines_up _ (sane_begun hs i) ((placeOf_begun b i i).trans hp) ⟨id, id⟩ hheld
  | enters hasks hfree hdriven =>
      exact sane_of_lands (held_of_begun hs hasks hfree) (lands_of_driven hdriven)
  | handed hp hi hdriven => exact sane_of_lands (held_of_sane hs hi) (lands_of_driven hdriven)
  | wrote hp _ hdriven | read hp _ hdriven | stopped hp _ hdriven =>
      have hi := hs.waits i _ hp trivial
      exact sane_of_lands (held_setWire (held_of_sane hs hi) _) (lands_of_driven hdriven)

theorem sane_of_drops (hs : Sane b) (h : Drops i b b') : Sane b' := by
  cases h with
  | gone => exact hs
  | idle hp hfree => exact sane_of_moved hs hp hfree id
  | leaves hp hi => exact sane_of_leaves .cancelled hs hi (by rw [hp]; rfl)
  | letsGo hp hholds =>
      have hi : b.holder = some i := hholds.elim (hs.waits i _ hp) id
      exact sane_of_ended (held_setWire (held_of_sane hs hi) _) .cancelled

/-- A move is a poll with what it leads to, perhaps a drop, or the clock. -/
theorem move_cases (T : Transport σ) (o : ClientOptions) (b : Board σ) (m : Move) :
    (∃ i b₁, m = .poll i ∧ Goes T o i b b₁ ∧ (b.move T o m = b₁ ∨ Drops i b₁ (b.move T o m))) ∨
      (∃ i, m = .drop i ∧ Drops i b (b.move T o m)) ∨
      ∃ now, m = .clock now ∧ b.move T o m = b.setNow now := by
  cases m with
  | clock now => exact .inr (.inr ⟨now, rfl, rfl⟩)
  | drop i =>
      refine .inr (.inl ⟨i, rfl, ?_⟩)
      show Drops i b (dropAt T b i)
      rw [dropAt]
      cases hi : b.tasks[i]? with
      | none =>
          refine .gone fun p hp => ?_
          rw [placeOf, hi] at hp
          cases hp
      | some t => exact drop_drops T hi
  | poll i =>
      left
      show ∃ j b₁, Move.poll i = .poll j ∧ _ ∧ (poll T o b i = b₁ ∨ Drops j b₁ (poll T o b i))
      simp only [poll]
      cases hi : b.tasks[i]? with
      | none =>
          have hp : b.placeOf i = none := by rw [placeOf, hi, Option.map_none]
          refine ⟨i, b, rfl, .still ?_, .inl rfl⟩
          rintro ⟨p, hp', _⟩
          cases hp.symm.trans hp'
      | some t =>
          refine ⟨i, goOn T o i t b, rfl, goOn_goes T o hi, ?_⟩
          dsimp only
          cases hi' : (goOn T o i t b).tasks[i]? with
          | none => exact .inl rfl
          | some t' =>
              dsimp only
              split
              · exact .inr (drop_drops T hi')
              · exact .inl rfl

/-- What polls, drops and the clock keep, moves keep. -/
theorem keeps_of_move {Q : Board σ → Prop} (hgoes : ∀ i b b', Q b → Goes T o i b b' → Q b')
    (hdrops : ∀ i b b', Q b → Drops i b b' → Q b') (hclock : ∀ b now, Q b → Q (b.setNow now))
    (hb : Q b) (m : Move) : Q (b.move T o m) := by
  rcases move_cases T o b m with ⟨i, b₁, _, h, heq | hdrop⟩ | ⟨i, _, hdrop⟩ | ⟨now, _, heq⟩
  · rw [heq]
    exact hgoes i b b₁ hb h
  · exact hdrops i b₁ _ (hgoes i b b₁ hb h) hdrop
  · exact hdrops i b _ hb hdrop
  · rw [heq]
    exact hclock b now hb

theorem keeps_of_moves {Q : Board σ → Prop} (hmove : ∀ b m, Q b → Q (b.move T o m)) (hb : Q b)
    (ms : List Move) : Q (b.moves T o ms) := by
  induction ms generalizing b with
  | nil => exact hb
  | cons m ms ih => exact ih (hmove b m hb)

theorem sane_of_move (hs : Sane b) (m : Move) : Sane (b.move T o m) :=
  keeps_of_move (Q := Sane) (fun _ _ _ => sane_of_goes) (fun _ _ _ => sane_of_drops)
    (fun b _ hs => sane_congr (b := b) rfl rfl (fun _ => rfl) hs) hs m

theorem sane_of_moves (hs : Sane b) (ms : List Move) : Sane (b.moves T o ms) :=
  keeps_of_moves (Q := Sane) (fun _ m hs => sane_of_move hs m) hs ms

/-! ## Exclusion -/

/-- The operation of branch `j` waits, the connection as it is. -/
structure Waiting (c : Connection) (w : σ) (j : Nat) (p : Place σ) (b : Board σ) : Prop where
  sane : Sane b
  conn : b.session.conn = c
  wire : b.session.wire = w
  place : b.placeOf j = some p

section Exclusion

variable {c : Connection} {w : σ} {p : Place σ}

/-- A place that changes no session is taken by another branch. -/
theorem waiting_of_place (hw : Waiting c w j p b) (hs : Sane b') (hsession : b'.session = b.session)
    (hplace : b'.placeOf j = b.placeOf j) : Waiting c w j p b' :=
  ⟨hs, by rw [hsession, hw.conn], by rw [hsession, hw.wire], hplace.trans hw.place⟩

theorem waiting_of_goes (hw : Waiting c w j p b) (hp : p.waits) (hij : i ≠ j)
    (h : Goes T o i b b') : Waiting c w j p b' := by
  have hholder : b.holder = some j := hw.sane.waits j p hw.place hp
  have hnot : b.holder ≠ some i := fun hi => hij (Option.some.inj (hi.symm.trans hholder))
  have hs : Sane b' := sane_of_goes hw.sane h
  cases h with
  | still => exact hw
  | rests | refused | linesUp =>
      exact waiting_of_place hw hs rfl ((placeOf_setPlace_ne _ hij.symm).trans (placeOf_begun b i j))
  | rested => exact waiting_of_place hw hs rfl (placeOf_setPlace_ne _ hij.symm)
  | enters _ hfree => exact nomatch hfree.symm.trans hholder
  | handed _ hi => exact absurd hi hnot
  | wrote hi | read hi | stopped hi => exact absurd (hw.sane.waits i _ hi trivial) hnot

theorem waiting_of_drops (hw : Waiting c w j p b) (hp : p.waits) (hij : i ≠ j)
    (h : Drops i b b') : Waiting c w j p b' := by
  have hholder : b.holder = some j := hw.sane.waits j p hw.place hp
  have hnot : b.holder ≠ some i := fun hi => hij (Option.some.inj (hi.symm.trans hholder))
  have hs : Sane b' := sane_of_drops hw.sane h
  cases h with
  | gone => exact hw
  | idle | leaves => exact waiting_of_place hw hs rfl (placeOf_setPlace_ne _ hij.symm)
  | letsGo hi hholds => exact absurd (hholds.elim (hw.sane.waits i _ hi) id) hnot

theorem waiting_of_move (hw : Waiting c w j p b) (hp : p.waits) {m : Move}
    (hm : m.branch ≠ some j) : Waiting c w j p (b.move T o m) := by
  rcases move_cases T o b m with ⟨i, b₁, rfl, h, heq | hdrop⟩ | ⟨i, rfl, hdrop⟩ | ⟨now, rfl, heq⟩
  · have hij : i ≠ j := fun h => hm (congrArg some h)
    rw [heq]
    exact waiting_of_goes hw hp hij h
  · have hij : i ≠ j := fun h => hm (congrArg some h)
    exact waiting_of_drops (waiting_of_goes hw hp hij h) hp hij hdrop
  · exact waiting_of_drops hw hp (fun h => hm (congrArg some h)) hdrop
  · exact ⟨sane_of_move hw.sane _, by rw [heq]; exact hw.conn, by rw [heq]; exact hw.wire,
      by rw [heq]; exact hw.place⟩

/-- While the operation of a branch waits, the moves of others leave the connection and the
transport alone. -/
theorem waiting_of_moves (hp : p.waits) {ms : List Move} (hms : ∀ m ∈ ms, m.branch ≠ some j) :
    ∀ {b : Board σ}, Waiting c w j p b → Waiting c w j p (b.moves T o ms) := by
  induction ms with
  | nil => exact id
  | cons m ms ih =>
      intro b hw
      exact ih (fun m' hm' => hms m' (List.mem_cons_of_mem m hm'))
        (waiting_of_move hw hp (hms m List.mem_cons_self))

end Exclusion

/-! ## Who is due -/

namespace Board

/-- The branches that have asked for the connection and are still to be served, in order. -/
def due (b : Board σ) : List Nat := (if b.handedOver then b.holder.toList else []) ++ b.line

theorem handedOver_iff : b.handedOver = true ↔
    ∃ i op, b.holder = some i ∧ b.placeOf i = some (.queued op) := by
  rw [handedOver]
  cases hholder : b.holder with
  | none => simp
  | some i =>
      cases hi : b.tasks[i]? with
      | none => simp [placeOf, hi]
      | some t =>
          obtain ⟨place, work, limit, dropAt⟩ := t
          cases place <;> simp [placeOf, hi]

theorem due_of_handed {op : Operation} (hi : b.holder = some i)
    (hp : b.placeOf i = some (.queued op)) : b.due = i :: b.line := by
  rw [due, if_pos (handedOver_iff.mpr ⟨i, op, hi, hp⟩), hi]
  rfl

theorem due_of_not_handed (h : ∀ i op, b.holder = some i → b.placeOf i ≠ some (.queued op)) :
    b.due = b.line := by
  rw [due, if_neg ?_, List.nil_append]
  intro hover
  obtain ⟨i, op, hi, hp⟩ := handedOver_iff.mp hover
  exact h i op hi hp

theorem due_of_waits {p : Place σ} (hi : b.holder = some i) (hp : b.placeOf i = some p)
    (hwaits : p.waits) : b.due = b.line := by
  refine due_of_not_handed fun j op hj hq => ?_
  cases hi.symm.trans hj
  cases hp.symm.trans hq
  exact hwaits

theorem due_of_free (hs : Sane b) (hfree : b.holder = none) : b.due = [] := by
  rw [due_of_not_handed (fun i op hi => nomatch hfree.symm.trans hi), hs.idle hfree]

end Board

/-- The first in line is due when the holder has ended. -/
theorem due_of_ended (hheld : Held b i) (e : Ending) :
    (b.setPlace i (.ended e)).release.due = b.line := by
  have hsane := sane_of_ended hheld e
  have hholder : (b.setPlace i (.ended e)).release.holder = b.line.head? := rfl
  have hline : (b.setPlace i (.ended e)).release.line = b.line.tail := rfl
  cases hhead : b.line.head? with
  | none => rw [due_of_free hsane (hholder.trans hhead), List.head?_eq_none_iff.mp hhead]
  | some j =>
      have hmem : j ∈ b.line := List.mem_of_head? hhead
      obtain ⟨q, hq, hqueued⟩ := hheld.queued j hmem
      cases q with
      | queued op =>
          have hplace : (b.setPlace i (.ended e)).release.placeOf j = some (.queued op) :=
            (placeOf_setPlace_ne _ (ne_of_mem_line hheld hmem)).trans hq
          rw [due_of_handed (hholder.trans hhead) hplace, hline]
          exact (List.eq_cons_of_mem_head? hhead).symm
      | _ => exact hqueued.elim

/-- Whoever drives, those that are due afterwards are those in line. -/
theorem due_of_lands (hheld : Held b i) (h : Lands i b b') : b'.due = b.line := by
  cases h with
  | @waits s p _ hp =>
      exact due_of_waits (b := { b with session := s }.setPlace i p) hheld.holder
        (placeOf_setPlace_self p hheld.there) hp
  | @ends s e => exact due_of_ended (held_setSession hheld s) e

/-- Only holder, line and places count. -/
theorem due_congr (hholder : b'.holder = b.holder) (hline : b'.line = b.line)
    (hplaces : ∀ i op, b.holder = some i →
      (b'.placeOf i = some (.queued op) ↔ b.placeOf i = some (.queued op))) : b'.due = b.due := by
  by_cases hover : b.handedOver = true
  · obtain ⟨i, op, hi, hp⟩ := handedOver_iff.mp hover
    rw [due_of_handed hi hp, due_of_handed (hholder.trans hi) ((hplaces i op hi).mpr hp), hline]
  · rw [due_of_not_handed fun i op hi hp => hover (handedOver_iff.mpr ⟨i, op, hi, hp⟩),
      due_of_not_handed fun i op hi hp => ?_, hline]
    have hi' : b.holder = some i := hholder.symm.trans hi
    exact hover (handedOver_iff.mpr ⟨i, op, hi', (hplaces i op hi').mp hp⟩)

/-- A branch that neither waits nor is queued is put where it does not queue. -/
theorem due_of_moved {old p : Place σ} (hs : Sane b) (hold : b.placeOf i = some old)
    (hfree : ¬ old.waits ∧ ¬ old.isQueued) : (b.setPlace i p).due = b.due := by
  refine due_congr rfl rfl fun j op hj => ?_
  have hne : j ≠ i := by
    rintro rfl
    exact not_holder_of_free hs hold hfree hj
  rw [placeOf_setPlace_ne p hne]

/-! ## Asked, served, due -/

/-- Branch `i` was refused the connection. -/
def Refused (o : ClientOptions) (b : Board σ) (i : Nat) : Prop :=
  o.policy = .reject ∧ b.placeOf i = some (.ended (.returned (.error .busy)))

theorem due_begun (b : Board σ) (i : Nat) : (b.begun i).due = b.due :=
  due_congr (b := b) rfl rfl fun j op _ => by rw [placeOf_begun]

/-- Who lines up is due after all others. -/
theorem due_of_lines_up {old : Place σ} (op : Operation) (hs : Sane b) (hold : b.placeOf i = some old)
    (hfree : ¬ old.waits ∧ ¬ old.isQueued) :
    ({ b with line := b.line ++ [i] }.setPlace i (.queued op)).due = b.due ++ [i] := by
  have hplaces : ∀ j op', b.holder = some j →
      (({ b with line := b.line ++ [i] }.setPlace i (.queued op)).placeOf j = some (.queued op') ↔
        b.placeOf j = some (.queued op')) := by
    intro j op' hj
    have hne : j ≠ i := by
      rintro rfl
      exact not_holder_of_free hs hold hfree hj
    rw [placeOf_setPlace_ne _ hne]
    rfl
  by_cases hover : b.handedOver = true
  · obtain ⟨j, op', hj, hp⟩ := handedOver_iff.mp hover
    rw [due_of_handed hj hp]
    exact due_of_handed (b := { b with line := b.line ++ [i] }.setPlace i (.queued op)) hj
      ((hplaces j op' hj).mpr hp)
  · rw [due_of_not_handed fun j op' hj hp => hover (handedOver_iff.mpr ⟨j, op', hj, hp⟩)]
    exact due_of_not_handed fun j op' hj hp =>
      hover (handedOver_iff.mpr ⟨j, op', hj, (hplaces j op' hj).mp hp⟩)

/-- Who is served, and who is due after a poll: who was due, and who asked, unless it was
refused. -/
theorem due_of_goes (hs : Sane b) (h : Goes T o i b b') :
    ((b.starts i).map fun _ => i).toList ++ b'.due = b.due ++ ((b.asks i).map fun _ => i).toList ∨
      (b.starts i = none ∧ b'.due = b.due ∧ Refused o b' i) := by
  have hfree : ∀ {u : Instant}, b.placeOf i = some (.pausing u) →
      (b.begun i).placeOf i = some (.pausing u) := fun hp => (placeOf_begun b i i).trans hp
  cases h with
  | still hnot =>
      left
      rw [asks_of_not_ready hnot, starts_of_not_ready hnot]
      simp
  | rests hp _ hasks =>
      left
      rw [hasks, starts_of_pausing hp hasks, due_of_moved (sane_begun hs i) (hfree hp) ⟨id, id⟩,
        due_begun]
      simp
  | rested hp =>
      left
      rw [asks_of_place hp nofun, starts_of_place hp nofun id, due_of_moved hs hp ⟨id, id⟩]
      simp
  | refused hasks hheld _ hpolicy =>
      obtain ⟨u, hp⟩ := pausing_of_asks hasks
      refine .inr ⟨starts_of_busy hasks hheld, ?_, hpolicy, ?_⟩
      · rw [due_of_moved (sane_begun hs i) (hfree hp) ⟨id, id⟩, due_begun]
      · exact placeOf_setPlace_self _ (by rw [hfree hp]; rfl)
  | linesUp hasks hheld =>
      obtain ⟨u, hp⟩ := pausing_of_asks hasks
      have hdue := due_of_lines_up ‹Operation› (sane_begun hs i) (hfree hp) ⟨id, id⟩
      left
      rw [starts_of_busy hasks hheld, hasks, ← due_begun b i]
      exact hdue
  | enters hasks hnobody hdriven =>
      left
      rw [starts_of_free hnobody, hasks, due_of_free hs hnobody,
        due_of_lands (held_of_begun hs hasks hnobody) (lands_of_driven hdriven)]
      show [i] ++ b.line = [] ++ [i]
      rw [hs.idle hnobody]
      rfl
  | handed hp hi hdriven =>
      left
      rw [starts_of_handed hi hp, asks_of_place hp nofun, due_of_handed hi hp,
        due_of_lands (held_of_sane hs hi) (lands_of_driven hdriven)]
      simp
  | wrote hp _ hdriven | read hp _ hdriven | stopped hp _ hdriven =>
      have hi := hs.waits i _ hp trivial
      left
      rw [starts_of_waits hp trivial, asks_of_place hp nofun, due_of_waits hi hp trivial,
        due_of_lands (held_setWire (held_of_sane hs hi) _) (lands_of_driven hdriven)]
      simp [setWire]

/-- Who is due is queued. -/
theorem queued_of_due (hs : Sane b) (hj : j ∈ b.due) : ∃ op, b.placeOf j = some (.queued op) := by
  have hqueued : ∀ k ∈ b.line, ∃ op, b.placeOf k = some (.queued op) := by
    intro k hk
    obtain ⟨p, hp, hstate⟩ := hs.queued k hk
    cases p with
    | queued op => exact ⟨op, hp⟩
    | _ => exact hstate.elim
  by_cases hover : b.handedOver = true
  · obtain ⟨i, op, hi, hp⟩ := handedOver_iff.mp hover
    rw [due_of_handed hi hp] at hj
    rcases List.mem_cons.mp hj with rfl | hj
    · exact ⟨op, hp⟩
    · exact hqueued j hj
  · rw [due_of_not_handed fun i op hi hp => hover (handedOver_iff.mpr ⟨i, op, hi, hp⟩)] at hj
    exact hqueued j hj

theorem not_due_of_place (hs : Sane b) (hp : ∀ op, b.placeOf i ≠ some (.queued op)) :
    i ∉ b.due := by
  intro hi
  obtain ⟨op, hop⟩ := queued_of_due hs hi
  exact hp op hop

theorem filter_of_not_mem {l : List Nat} (h : i ∉ l) : l.filter (· ≠ i) = l := by
  refine List.filter_eq_self.mpr fun k hk => decide_eq_true ?_
  rintro rfl
  exact h hk

/-- Who leaves the line is not due any longer. -/
theorem due_of_leaves (e : Ending) (hi : b.holder ≠ some i) :
    ({ b.setPlace i (.ended e) with line := b.line.filter (· ≠ i) } : Board σ).due
      = b.due.filter (· ≠ i) := by
  have hplaces : ∀ j op, b.holder = some j →
      ((b.setPlace i (.ended e)).placeOf j = some (.queued op) ↔
        b.placeOf j = some (.queued op)) := by
    intro j op hj
    have hne : j ≠ i := by
      rintro rfl
      exact hi hj
    rw [placeOf_setPlace_ne _ hne]
  by_cases hover : b.handedOver = true
  · obtain ⟨j, op, hj, hp⟩ := handedOver_iff.mp hover
    have hne : j ≠ i := by
      rintro rfl
      exact hi hj
    rw [due_of_handed hj hp, List.filter_cons, if_pos (decide_eq_true hne)]
    exact due_of_handed (b := { b.setPlace i (.ended e) with line := b.line.filter (· ≠ i) }) hj
      ((hplaces j op hj).mpr hp)
  · rw [due_of_not_handed fun j op hj hp => hover (handedOver_iff.mpr ⟨j, op, hj, hp⟩)]
    exact due_of_not_handed fun j op hj hp =>
      hover (handedOver_iff.mpr ⟨j, op, hj, (hplaces j op hj).mp hp⟩)

/-- A branch that is dropped is not due any longer; the others are. -/
theorem due_of_drops (hs : Sane b) (h : Drops i b b') :
    b'.due = b.due.filter (· ≠ i) ∧ (i ∈ b.due → b'.placeOf i = some (.ended .cancelled)) := by
  cases h with
  | gone hended =>
      have hnot : i ∉ b.due := not_due_of_place hs fun op hop => by
        obtain ⟨e, he⟩ := hended _ hop
        exact nomatch he
      exact ⟨(filter_of_not_mem hnot).symm, fun hi => absurd hi hnot⟩
  | @idle p hp hfree =>
      have hnot : i ∉ b.due := not_due_of_place hs fun op hop => by
        cases hp.symm.trans hop
        exact hfree.2 trivial
      exact ⟨by rw [due_of_moved hs hp hfree, filter_of_not_mem hnot], fun hi => absurd hi hnot⟩
  | leaves hp hi =>
      exact ⟨due_of_leaves .cancelled hi,
        fun _ => placeOf_setPlace_self _ (by rw [hp]; rfl)⟩
  | @letsGo p w hp hholds =>
      have hi : b.holder = some i := hholds.elim (hs.waits i p hp) id
      have hheld : Held (b.setWire w) i := held_setWire (held_of_sane hs hi) w
      refine ⟨?_, fun _ => placeOf_setPlace_self _ hheld.there⟩
      rw [due_of_ended hheld]
      show b.line = b.due.filter (· ≠ i)
      have hline : b.line.filter (· ≠ i) = b.line := filter_of_not_mem (hs.apart i hi)
      obtain ⟨q, hq, hstate⟩ := hs.holds i hi
      cases q with
      | queued op =>
          rw [due_of_handed hi hq, List.filter_cons_of_neg (by simp), hline]
      | writing | reading | stopping => rw [due_of_waits hi hq trivial, hline]
      | pausing | resting | ended => exact (hstate.elim id id).elim

/-! ## Order of service -/

namespace Board

/-- The branch whose operation starts at a move, and the id of its request, if it makes one. -/
def numbered (o : ClientOptions) (b : Board σ) (m : Move) : Option (Nat × Option Nat) :=
  (b.starter m).map fun s =>
    (s.1, (startEntry o b.session.conn s.2).begins.bind (·.1.requestId))

/-- The branches that ask for the connection along some moves, in order. -/
def asked (T : Transport σ) (o : ClientOptions) (b : Board σ) (ms : List Move) : List Nat :=
  b.along T o asker ms

/-- The branches that are served along some moves, in order, and the ids of their requests. -/
def served (T : Transport σ) (o : ClientOptions) (b : Board σ) (ms : List Move) :
    List (Nat × Option Nat) :=
  b.along T o (numbered o) ms

end Board

theorem numbered_fst (o : ClientOptions) (b : Board σ) (m : Move) :
    (b.numbered o m).map (·.1) = (b.starter m).map (·.1) := by
  rw [numbered, Option.map_map]
  rfl

/-- Who is served at a move, and who is due after it, was due or asks. -/
theorem order_of_move (hs : Sane b) (m : Move) :
    (((b.starter m).map (·.1)).toList ++ (b.move T o m).due).Sublist
      (b.due ++ (b.asker m).toList) := by
  rcases move_cases T o b m with ⟨i, b₁, rfl, h, hnext⟩ | ⟨i, rfl, hdrop⟩ | ⟨now, rfl, heq⟩
  · have hpoll : (((b.starter (.poll i)).map (·.1)).toList ++ b₁.due).Sublist
        (b.due ++ (b.asker (.poll i)).toList) := by
      have hstarter : (b.starter (.poll i)).map (·.1) = (b.starts i).map fun _ => i := by
        rw [starter, Option.map_map]
        rfl
      rw [hstarter, asker]
      rcases due_of_goes hs h with heq | ⟨hnone, hdue, _⟩
      · rw [heq]
      · rw [hnone, hdue]
        exact List.sublist_append_left _ _
    refine List.Sublist.trans ?_ hpoll
    rcases hnext with heq | hdrop
    · rw [heq]
    · rw [(due_of_drops (sane_of_goes hs h) hdrop).1]
      exact (List.Sublist.refl _).append List.filter_sublist
  · rw [(due_of_drops hs hdrop).1]
    exact List.filter_sublist.trans (List.sublist_append_left _ _)
  · rw [heq]
    exact List.sublist_append_left _ _

/-- Branches are served in the order in which they asked. -/
theorem order_of_moves (ms : List Move) : ∀ {b : Board σ}, Sane b →
    ((b.served T o ms).map (·.1) ++ (b.moves T o ms).due).Sublist (b.due ++ b.asked T o ms) := by
  induction ms with
  | nil =>
      intro b _
      simp [served, asked]
  | cons m ms ih =>
      intro b hs
      have hstep := order_of_move (T := T) (o := o) hs m
      have hrest := ih (sane_of_move (T := T) (o := o) hs m)
      have hserved : (b.served T o (m :: ms)).map (·.1)
          = ((b.starter m).map (·.1)).toList ++ ((b.move T o m).served T o ms).map (·.1) := by
        rw [served, along_cons, List.map_append, ← numbered_fst o]
        cases b.numbered o m <;> rfl
      have hasked : b.asked T o (m :: ms) = (b.asker m).toList ++ (b.move T o m).asked T o ms := rfl
      rw [hserved, hasked, List.append_assoc, moves_cons, ← List.append_assoc b.due]
      refine List.Sublist.trans ((List.Sublist.refl _).append hrest) ?_
      rw [← List.append_assoc]
      exact hstep.append (List.Sublist.refl _)

/-! ## Who has asked -/

/-- What has ended stays ended, and nobody comes back to its pause. -/
structure Onward (b b' : Board σ) : Prop where
  ended : ∀ j e, b.placeOf j = some (.ended e) → b'.placeOf j = some (.ended e)
  pausing : ∀ j u, b'.placeOf j = some (.pausing u) → b.placeOf j = some (.pausing u)

theorem onward_refl (b : Board σ) : Onward b b := ⟨fun _ _ => id, fun _ _ => id⟩

theorem onward_trans {b'' : Board σ} (h : Onward b b') (h' : Onward b' b'') : Onward b b'' :=
  ⟨fun j e hj => h'.ended j e (h.ended j e hj), fun j u hj => h.pausing j u (h'.pausing j u hj)⟩

/-- Only branch `i` changes its place; it had not ended and does not pause then. -/
theorem onward_of_place (hothers : ∀ j, j ≠ i → b'.placeOf j = b.placeOf j)
    (hbefore : ∀ e, b.placeOf i ≠ some (.ended e)) (hafter : ∀ u, b'.placeOf i ≠ some (.pausing u)) :
    Onward b b' := by
  constructor
  · intro j e hj
    by_cases hji : j = i
    · exact absurd (hji ▸ hj) (hbefore e)
    · rw [hothers j hji, hj]
  · intro j u hj
    by_cases hji : j = i
    · exact absurd (hji ▸ hj) (hafter u)
    · rw [← hothers j hji, hj]

theorem not_pausing_of_lands (hheld : Held b i) (h : Lands i b b') (u : Instant) :
    b'.placeOf i ≠ some (.pausing u) := by
  intro hu
  cases h with
  | @waits s p _ hp =>
      have hself : ({ b with session := s }.setPlace i p).placeOf i = some p :=
        placeOf_setPlace_self p hheld.there
      cases hself.symm.trans hu
      exact hp
  | @ends s e =>
      have hself : ({ b with session := s }.setPlace i (.ended e)).placeOf i = some (.ended e) :=
        placeOf_setPlace_self _ hheld.there
      exact nomatch hself.symm.trans hu

theorem onward_of_lands {b₀ : Board σ} (hheld : Held b i) (hplaces : b.placeOf = b₀.placeOf)
    (h : Lands i b b') (hbefore : ∀ e, b₀.placeOf i ≠ some (.ended e)) : Onward b₀ b' :=
  onward_of_place (fun _ hj => by rw [placeOf_of_lands h hj, hplaces]) hbefore
    (not_pausing_of_lands hheld h)

/-- A branch that is polled goes on or stays where it is; it does not ask twice. -/
theorem onward_of_goes (hs : Sane b) (h : Goes T o i b b') :
    Onward b b' ∧ (b.asks i ≠ none → ∀ u, b'.placeOf i ≠ some (.pausing u)) := by
  have hset : ∀ {u : Instant} {p : Place σ} (b₁ : Board σ),
      (∀ j, b₁.placeOf j = b.placeOf j) → b.placeOf i = some (.pausing u) →
      (∀ u, p ≠ .pausing u) →
      Onward b (b₁.setPlace i p) ∧
        (b.asks i ≠ none → ∀ u, (b₁.setPlace i p).placeOf i ≠ some (.pausing u)) := by
    intro u p b₁ hplaces hp hpause
    have hself : (b₁.setPlace i p).placeOf i = some p :=
      placeOf_setPlace_self p (by rw [hplaces, hp]; rfl)
    have hafter : ∀ u, (b₁.setPlace i p).placeOf i ≠ some (.pausing u) :=
      fun u hu => hpause u (Option.some.inj (hself.symm.trans hu))
    refine ⟨onward_of_place (fun j hj => ?_) (fun e he => nomatch hp.symm.trans he) hafter,
      fun _ => hafter⟩
    rw [placeOf_setPlace_ne p hj, hplaces]
  cases h with
  | still hnot => exact ⟨onward_refl b, fun hne => absurd (asks_of_not_ready hnot) hne⟩
  | rests hp _ _ hpause => exact hset (b.begun i) (placeOf_begun b i) hp hpause
  | rested hp =>
      refine ⟨onward_of_place (fun j hj => placeOf_setPlace_ne _ hj)
        (fun e he => nomatch hp.symm.trans he) fun u hu => ?_, fun hne => ?_⟩
      · exact nomatch (placeOf_setPlace_self _ (by rw [hp]; rfl)).symm.trans hu
      · exact absurd (asks_of_place hp nofun) hne
  | refused hasks =>
      obtain ⟨u, hp⟩ := pausing_of_asks hasks
      exact hset (b.begun i) (placeOf_begun b i) hp nofun
  | linesUp hasks =>
      obtain ⟨u, hp⟩ := pausing_of_asks hasks
      exact hset { b.begun i with line := b.line ++ [i] } (placeOf_begun b i) hp nofun
  | enters hasks hnobody hdriven =>
      obtain ⟨u, hp⟩ := pausing_of_asks hasks
      have hheld := held_of_begun hs hasks hnobody
      have hlands := lands_of_driven hdriven
      exact ⟨onward_of_lands hheld (funext (placeOf_begun b i)) hlands
        (fun e he => nomatch hp.symm.trans he), fun _ => not_pausing_of_lands hheld hlands⟩
  | handed hp hi hdriven =>
      have hheld := held_of_sane hs hi
      have hlands := lands_of_driven hdriven
      exact ⟨onward_of_lands hheld rfl hlands (fun e he => nomatch hp.symm.trans he),
        fun _ => not_pausing_of_lands hheld hlands⟩
  | wrote hp _ hdriven | read hp _ hdriven | stopped hp _ hdriven =>
      have hi := hs.waits i _ hp trivial
      have hlands := lands_of_driven hdriven
      exact ⟨onward_of_lands (held_setWire (held_of_sane hs hi) _) (by rfl) hlands
        (fun e he => nomatch hp.symm.trans he),
        fun _ => not_pausing_of_lands (held_setWire (held_of_sane hs hi) _) hlands⟩

theorem onward_of_drops (hs : Sane b) (h : Drops i b b') : Onward b b' := by
  have hdropped : ∀ {p : Place σ} {b₁ : Board σ},
      (∀ j, b₁.placeOf j = (b.setPlace i (.ended .cancelled)).placeOf j) → b.placeOf i = some p →
      (∀ e, p ≠ .ended e) → Onward b b₁ := by
    intro p b₁ hplaces hp hne
    refine onward_of_place (fun j hj => ?_)
      (fun e he => hne e (Option.some.inj (hp.symm.trans he))) fun u hu => ?_
    · rw [hplaces, placeOf_setPlace_ne _ hj]
    · rw [hplaces, placeOf_setPlace_self _ (by rw [hp]; rfl)] at hu
      exact nomatch hu
  cases h with
  | gone => exact onward_refl b
  | idle hp _ hne => exact hdropped (fun _ => rfl) hp hne
  | leaves hp => exact hdropped (fun _ => rfl) hp nofun
  | @letsGo p w hp hholds =>
      refine hdropped (fun _ => rfl) hp fun e he => ?_
      subst he
      obtain ⟨q, hq, hstate⟩ := hs.holds i (hholds.elim False.elim id)
      cases hp.symm.trans hq
      exact hstate.elim id id

theorem onward_of_move (hs : Sane b) (m : Move) : Onward b (b.move T o m) := by
  rcases move_cases T o b m with ⟨i, b₁, _, h, heq | hdrop⟩ | ⟨i, _, hdrop⟩ | ⟨now, _, heq⟩
  · rw [heq]
    exact (onward_of_goes hs h).1
  · exact onward_trans (onward_of_goes hs h).1 (onward_of_drops (sane_of_goes hs h) hdrop)
  · exact onward_of_drops hs hdrop
  · rw [heq]
    exact ⟨fun _ _ => id, fun _ _ => id⟩

theorem onward_of_moves (ms : List Move) : ∀ {b : Board σ}, Sane b → Onward b (b.moves T o ms) := by
  induction ms with
  | nil => exact fun {b} _ => onward_refl b
  | cons m ms ih => exact fun hs => onward_trans (onward_of_move hs m) (ih (sane_of_move hs m))

/-- The branch that asks at a move pauses before it, and not after it. -/
theorem pausing_of_asker (hs : Sane b) {m : Move} (hm : b.asker m = some i) :
    (∃ u, b.placeOf i = some (.pausing u)) ∧ ∀ u, (b.move T o m).placeOf i ≠ some (.pausing u) := by
  cases m with
  | drop | clock => exact nomatch hm
  | poll k =>
      obtain ⟨op, hop, rfl⟩ := Option.map_eq_some_iff.mp hm
      refine ⟨pausing_of_asks hop, fun u hu => ?_⟩
      rcases move_cases T o b (.poll k) with ⟨_, b₁, hk, h, heq | hdrop⟩ | ⟨_, hk, _⟩ | ⟨_, hk, _⟩
      · cases hk
        rw [heq] at hu
        exact (onward_of_goes hs h).2 (by rw [hop]; exact nofun) u hu
      · cases hk
        exact (onward_of_goes hs h).2 (by rw [hop]; exact nofun) u
          ((onward_of_drops (sane_of_goes hs h) hdrop).pausing k u hu)
      · exact nomatch hk
      · exact nomatch hk

/-- Each branch asks once. -/
theorem nodup_asked (ms : List Move) : ∀ {b : Board σ}, Sane b →
    (b.asked T o ms).Nodup ∧ ∀ i ∈ b.asked T o ms, ∃ u, b.placeOf i = some (.pausing u) := by
  induction ms with
  | nil => exact fun _ => ⟨List.nodup_nil, by simp [asked]⟩
  | cons m ms ih =>
      intro b hs
      obtain ⟨honce, hpause⟩ := ih (sane_of_move (T := T) (o := o) hs m)
      have hasked : b.asked T o (m :: ms) = (b.asker m).toList ++ (b.move T o m).asked T o ms := rfl
      rw [hasked]
      constructor
      · refine List.nodup_append.mpr ⟨by cases b.asker m <;> simp, honce, fun i hi k hk hik => ?_⟩
        obtain ⟨u, hu⟩ := hpause k hk
        exact (pausing_of_asker hs (Option.mem_toList.mp hi)).2 u (hik ▸ hu)
      · intro i hi
        rcases List.mem_append.mp hi with hi | hi
        · exact (pausing_of_asker (T := T) (o := o) hs (Option.mem_toList.mp hi)).1
        · obtain ⟨u, hu⟩ := hpause i hi
          exact ⟨u, (onward_of_move hs m).pausing i u hu⟩

theorem due_or_cancelled (hs : Sane b) (h : Drops j b b') (hi : i ∈ b.due) :
    i ∈ b'.due ∨ b'.placeOf i = some (.ended .cancelled) := by
  obtain ⟨hdue, hcancelled⟩ := due_of_drops hs h
  by_cases hij : i = j
  · subst hij
    exact .inr (hcancelled hi)
  · rw [hdue]
    exact .inl (List.mem_filter.mpr ⟨hi, decide_eq_true hij⟩)

/-- Whoever is due or asks is served, or still due, or was dropped or refused. -/
theorem fate_of_move (hs : Sane b) (m : Move) (hi : i ∈ b.due ++ (b.asker m).toList) :
    i ∈ ((b.starter m).map (·.1)).toList ∨ i ∈ (b.move T o m).due ∨
      (b.move T o m).placeOf i = some (.ended .cancelled) ∨ Refused o (b.move T o m) i := by
  rcases move_cases T o b m with ⟨k, b₁, rfl, h, hnext⟩ | ⟨k, rfl, hdrop⟩ | ⟨now, rfl, heq⟩
  · have hlater : i ∈ b₁.due → i ∈ (b.move T o (.poll k)).due ∨
        (b.move T o (.poll k)).placeOf i = some (.ended .cancelled) := by
      intro hdue
      rcases hnext with heq | hdrop
      · rw [heq]
        exact .inl hdue
      · exact due_or_cancelled (sane_of_goes hs h) hdrop hdue
    have hstarter : (b.starter (.poll k)).map (·.1) = (b.starts k).map fun _ => k := by
      rw [starter, Option.map_map]
      rfl
    rw [hstarter]
    rcases due_of_goes hs h with heq | ⟨hnone, hdue, hpolicy, hplace⟩
    · rw [asker, ← heq] at hi
      rcases List.mem_append.mp hi with hstarted | hdue
      · exact .inl hstarted
      · exact .inr ((hlater hdue).imp_right .inl)
    · rcases List.mem_append.mp hi with hi | hi
      · exact .inr ((hlater (hdue ▸ hi)).imp_right .inl)
      · have hik : k = i := by
          obtain ⟨_, _, rfl⟩ := Option.map_eq_some_iff.mp (Option.mem_toList.mp hi)
          rfl
        subst hik
        refine .inr (.inr (.inr ⟨hpolicy, ?_⟩))
        rcases hnext with heq | hdrop
        · rw [heq]
          exact hplace
        · exact (onward_of_drops (sane_of_goes hs h) hdrop).ended k _ hplace
  · have hdue : i ∈ b.due := by simpa [asker] using hi
    exact .inr ((due_or_cancelled hs hdrop hdue).imp_right .inl)
  · have hdue : (b.setNow now).due = b.due := rfl
    rw [heq, hdue]
    exact .inr (.inl (by simpa [asker] using hi))

theorem fate_of_moves (ms : List Move) : ∀ {b : Board σ}, Sane b →
    i ∈ b.due ++ b.asked T o ms →
      i ∈ (b.served T o ms).map (·.1) ∨ i ∈ (b.moves T o ms).due ∨
        (b.moves T o ms).placeOf i = some (.ended .cancelled) ∨ Refused o (b.moves T o ms) i := by
  induction ms with
  | nil =>
      intro b _ hi
      exact .inr (.inl (by simpa [asked] using hi))
  | cons m ms ih =>
      intro b hs hi
      have hs' := sane_of_move (T := T) (o := o) hs m
      have hserved : (b.served T o (m :: ms)).map (·.1)
          = ((b.starter m).map (·.1)).toList ++ ((b.move T o m).served T o ms).map (·.1) := by
        rw [served, along_cons, List.map_append, ← numbered_fst o]
        cases b.numbered o m <;> rfl
      have hasked : b.asked T o (m :: ms) = (b.asker m).toList ++ (b.move T o m).asked T o ms := rfl
      have hlater : i ∈ (b.move T o m).due ++ (b.move T o m).asked T o ms →
          i ∈ (b.served T o (m :: ms)).map (·.1) ∨ i ∈ (b.moves T o (m :: ms)).due ∨
            (b.moves T o (m :: ms)).placeOf i = some (.ended .cancelled) ∨
              Refused o (b.moves T o (m :: ms)) i := by
        intro hdue
        rw [hserved]
        exact (ih hs' hdue).imp_left fun h => List.mem_append_right _ h
      rw [hasked, ← List.append_assoc] at hi
      rcases List.mem_append.mp hi with hnow | hrest
      · have honward := onward_of_moves (T := T) (o := o) ms hs'
        rcases fate_of_move (T := T) (o := o) hs m hnow with hstarted | hdue | hcancelled | ⟨hpolicy, hbusy⟩
        · rw [hserved]
          exact .inl (List.mem_append_left _ hstarted)
        · exact hlater (List.mem_append_left _ hdue)
        · exact .inr (.inr (.inl (honward.ended i _ hcancelled)))
        · exact .inr (.inr (.inr ⟨hpolicy, honward.ended i _ hbusy⟩))
      · exact hlater (List.mem_append_right _ hrest)

/-! ## The ids of the requests -/

theorem along_filterMap {α β : Type} (f : Board σ → Move → Option α) (g : α → Option β)
    (ms : List Move) : ∀ b : Board σ,
      (b.along T o f ms).filterMap g = b.along T o (fun b m => (f b m).bind g) ms := by
  induction ms with
  | nil => exact fun _ => rfl
  | cons m ms ih =>
      intro b
      rw [along_cons, along_cons, List.filterMap_append, ih]
      congr 1
      cases hf : f b m with
      | none => rfl
      | some a => cases hg : g a <;> simp [hg]

/-- The ids of the requests that are served are those of the operations that start. -/
theorem ids_of_served (b : Board σ) (ms : List Move) :
    (b.served T o ms).filterMap (·.2)
      = (b.along T o (startAt o) ms).filterMap fun x => x.begins.bind (·.1.requestId) := by
  rw [served, along_filterMap, along_filterMap]
  congr 1
  funext b m
  rw [numbered, startAt]
  cases b.starter m <;> rfl

/-- A request is begun at the start of its operation. -/
theorem isStart_of_request {x : Entry} {h : History} (hrun : Run o (x :: h)) {id : Nat}
    (hid : x.begins.bind (·.1.requestId) = some id) : x.event.isStart = true := by
  obtain ⟨before, event, after, outcome⟩ := x
  obtain ⟨⟨why, line⟩, hbegins, hwhy⟩ := Option.bind_eq_some_iff.mp hid
  have hp := begins_eq_some_iff.mp hbegins
  cases (turn_of_entry hrun).2 with
  | asks | unprintable | notifies | declined | shutsDown | questions => rfl
  | passes hw => exact nomatch hw.symm.trans hp
  | opens =>
      cases hp
      exact nomatch hwhy
  | _ => exact nomatch hp

/-- The ids of what a run adds are those of the operations that start in it. -/
theorem ids_of_starts {later h : History} (hrun : Run o (later ++ h)) :
    History.ids (later ++ h) = h.ids
      ++ (later.filter (·.event.isStart)).reverse.filterMap
        fun x => x.begins.bind (·.1.requestId) := by
  induction later with
  | nil => simp
  | cons x rest ih =>
      have hrest : Run o (rest ++ h) := @run_of_append o [x] _ hrun
      rw [List.cons_append, History.ids_cons, ih hrest, List.append_assoc]
      congr 1
      cases hid : x.begins.bind (·.1.requestId) with
      | none => by_cases hx : x.event.isStart = true <;> simp [hx, hid]
      | some id => simp [isStart_of_request hrun hid, hid]

/-- The ids on the wire follow the order of service: those of a run are followed by those
of the operations that are served from then on, and all of them rise. -/
theorem ids_of_moves {P : List (String × Bool) → σ → Prop} (hk : Keeps T P) {h : History}
    (hs : Sane b) (ht : Tracks o P b h) (ms : List Move) :
    ∃ later, Tracks o P (b.moves T o ms) (later ++ h) ∧
      History.ids (later ++ h) = h.ids ++ (b.served T o ms).filterMap (·.2) ∧
      ((b.served T o ms).filterMap (·.2)).Pairwise (· < ·) := by
  obtain ⟨later, hstarts, _, ht'⟩ := moves_leads hk ms b h hs ht
  have hids : History.ids (later ++ h) = h.ids ++ (b.served T o ms).filterMap (·.2) := by
    rw [ids_of_starts ht'.run, hstarts, List.reverse_reverse, ids_of_served]
  refine ⟨later, ht', hids, ?_⟩
  have hrise := (numbers_of_run ht'.run).rise
  rw [hids] at hrise
  exact (List.pairwise_append.mp hrise).2.1

/-! ## A held connection -/

/-- A branch that heeds the policy and finds the connection held is refused at once, where
the policy is to refuse; nothing else changes. -/
theorem poll_of_refused {op : Operation} (hs : Sane b) (hasks : b.asks i = some op)
    (hheld : b.holder ≠ none) (hheeds : op.heedsPolicy = true) (hpolicy : o.policy = .reject) :
    b.move T o (.poll i) = (b.begun i).setPlace i (.ended (.returned (.error .busy))) := by
  obtain ⟨u, hp⟩ := pausing_of_asks hasks
  have hplace : ((b.begun i).setPlace i (.ended (.returned (.error .busy)))).placeOf i
      = some (.ended (.returned (.error .busy))) :=
    placeOf_setPlace_self _ (by rw [placeOf_begun, hp]; rfl)
  rcases move_cases T o b (.poll i) with ⟨k, b₁, hk, h, hnext⟩ | ⟨_, hk, _⟩ | ⟨_, hk, _⟩
  · cases hk
    have hb₁ : b₁ = (b.begun i).setPlace i (.ended (.returned (.error .busy))) := by
      cases h with
      | refused => rfl
      | linesUp hasks' _ hqueue =>
          cases hasks.symm.trans hasks'
          exact nomatch hpolicy.symm.trans (hqueue hheeds)
      | still hnot => exact nomatch hasks.symm.trans (asks_of_not_ready hnot)
      | rests _ _ hnone => exact nomatch hasks.symm.trans hnone
      | enters _ hfree => exact absurd hfree hheld
      | rested hp' | handed hp' | wrote hp' | read hp' | stopped hp' =>
          exact nomatch hp.symm.trans hp'
    subst hb₁
    rcases hnext with heq | hdrop
    · exact heq
    · -- what has ended is not dropped
      generalize b.move T o (.poll i) = b' at hdrop ⊢
      cases hdrop with
      | gone => rfl
      | idle hp' _ hne => exact absurd (Option.some.inj (hp'.symm.trans hplace)) (hne _)
      | leaves hp' => exact nomatch hp'.symm.trans hplace
      | letsGo hp' hholds =>
          cases hp'.symm.trans hplace
          have hi : b.holder = some i := hholds.elim False.elim id
          exact absurd hi (not_holder_of_free hs hp ⟨id, id⟩)
  · exact nomatch hk
  · exact nomatch hk

end Conformance
