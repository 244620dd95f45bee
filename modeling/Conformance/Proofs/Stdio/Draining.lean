/-
Conformance — how far the error output of a server is read.

The error output is a stream of lines, and the tail holds the last of them, as many as are kept,
oldest first.  It is read up to the first line that is no text: that one and all that follow it
are lost, and no one reads what the server writes from then on (`drained_up_to_broken_line`).  As
long as every line is a text nothing is lost and the server can write as it likes, in whatever
chunks; a server that writes on after such a line is ended by its next write
(`drain_of_broken_line`).

`Drained` is what the drain knows of the octets that came so far; a chunk takes it from one
stream to the longer one.
-/
import Conformance.Machine.Process
import Conformance.Proofs.Stdio.Reading

namespace Conformance.Stdio

open Text Machine

/-! ## Lines -/

/-- The lines that have ended so far, each without its newline and one carriage return. -/
def completed (bs : List UInt8) : List (List UInt8) := (splitLines bs).dropLast.map chomp

/-- The line under way. -/
def underway (bs : List UInt8) : List UInt8 := (splitLines bs).getLast?.getD []

/-- Every line is a text. -/
def AllText (ls : List (List UInt8)) : Prop := ∀ l ∈ ls, Utf8.decode? l ≠ none

/-- The texts of lines, up to the first that is none. -/
def legible : List (List UInt8) → List String
  | [] => []
  | l :: rest =>
      match Utf8.decode? l with
      | some s => s :: legible rest
      | none => []

/-- The last lines, as many as are kept. -/
def recent (ls : List String) : List String := ls.drop (ls.length - tailLimit)

theorem lines_eq (bs : List UInt8) :
    lines bs = completed bs ++ if (underway bs).isEmpty then [] else [underway bs] := rfl

/-- Cutting goes on where it stopped, with the line that was under way. -/
theorem splitLines_append (as bs : List UInt8) :
    splitLines (as ++ bs) = (splitLines as).dropLast ++ splitLines (underway as ++ bs) := by
  induction as with
  | nil => rfl
  | cons a as ih =>
      obtain ⟨first, rest, hsplit, hcons⟩ := splitLines_cons a as
      obtain ⟨first', rest', hsplit', hcons'⟩ := splitLines_cons a (as ++ bs)
      rw [List.cons_append, hcons', hcons]
      rw [underway, hsplit, hsplit'] at ih
      rw [underway, hcons]
      split
      · rw [ih]
        rfl
      · cases rest with
        | cons second rest =>
            simp only [List.dropLast_cons_cons, List.cons_append, List.cons.injEq] at ih ⊢
            obtain ⟨rfl, rfl⟩ := ih
            exact ⟨⟨trivial, rfl⟩, rfl⟩
        | nil =>
            obtain ⟨first'', rest'', hsplit'', hcons''⟩ := splitLines_cons a (first ++ bs)
            have hih : first' :: rest' = splitLines (first ++ bs) := ih
            rw [hsplit''] at hih
            cases hih
            exact (hcons''.trans (if_neg ‹_›)).symm

theorem completed_append (as bs : List UInt8) :
    completed (as ++ bs) = completed as ++ completed (underway as ++ bs) := by
  rw [completed, splitLines_append, List.dropLast_append_of_ne_nil (splitLines_ne_nil _),
    List.map_append]
  rfl

theorem underway_append (as bs : List UInt8) :
    underway (as ++ bs) = underway (underway as ++ bs) := by
  rw [underway, splitLines_append, List.getLast?_append_of_ne_nil _ (splitLines_ne_nil _)]
  rfl

theorem allText_append {a b : List (List UInt8)} : AllText (a ++ b) ↔ AllText a ∧ AllText b := by
  simp only [AllText, List.forall_mem_append]

theorem allText_singleton {l : List UInt8} : AllText [l] ↔ Utf8.decode? l ≠ none :=
  List.forall_mem_singleton

/-- Reading goes on behind lines that are texts, and nowhere else. -/
theorem legible_append_of_allText {a : List (List UInt8)} (b : List (List UInt8))
    (h : AllText a) : legible (a ++ b) = legible a ++ legible b := by
  induction a with
  | nil => rfl
  | cons l rest ih =>
      obtain ⟨hl, hrest⟩ := List.forall_mem_cons.mp h
      obtain ⟨s, hs⟩ := Option.ne_none_iff_exists'.mp hl
      simp only [List.cons_append, legible, hs, ih hrest]

theorem legible_append_of_not_allText {a : List (List UInt8)} (b : List (List UInt8))
    (h : ¬ AllText a) : legible (a ++ b) = legible a := by
  induction a with
  | nil => exact absurd nofun h
  | cons l rest ih =>
      cases hl : Utf8.decode? l with
      | none => simp only [List.cons_append, legible, hl]
      | some s =>
          have hrest : ¬ AllText rest := fun hall =>
            h (List.forall_mem_cons.mpr ⟨by simp [hl], hall⟩)
          simp only [List.cons_append, legible, hl, ih hrest]

/-- Of a text nothing is lost by reading it lossily. -/
theorem decodeLossy_of_decode {bs : List UInt8} {s : String} (h : Utf8.decode? bs = some s) :
    Utf8.decodeLossy bs = s := by
  obtain ⟨cs, hcs, rfl⟩ := Option.map_eq_some_iff.mp h
  clear h
  rw [Utf8.decodeLossy]
  congr 1
  generalize Utf8.pieces none bs = ps at hcs
  induction ps generalizing cs with
  | nil => exact Option.some.inj hcs
  | cons p ps ih =>
      rw [List.mapM_cons] at hcs
      obtain ⟨c, hc, hcs⟩ := Option.bind_eq_some_iff.mp hcs
      obtain ⟨cs', hcs', heq⟩ := Option.bind_eq_some_iff.mp hcs
      cases heq
      rw [List.map_cons, hc, ih cs' hcs']
      rfl

theorem legible_eq_map {ls : List (List UInt8)} (h : AllText ls) :
    legible ls = ls.map Utf8.decodeLossy := by
  induction ls with
  | nil => rfl
  | cons l rest ih =>
      obtain ⟨hl, hrest⟩ := List.forall_mem_cons.mp h
      obtain ⟨s, hs⟩ := Option.ne_none_iff_exists'.mp hl
      simp only [legible, hs, List.map_cons, ih hrest, decodeLossy_of_decode hs]

/-! ## The tail -/

namespace Drain

/-- One more line: the oldest goes when there is no room. -/
theorem push_recent (ls : List String) (s : String) : push (recent ls) s = recent (ls ++ [s]) := by
  have hlimit : tailLimit = 64 := rfl
  have hlength : (recent ls).length = min ls.length tailLimit := by
    rw [recent, List.length_drop]
    omega
  rw [push, hlength, recent, recent, List.length_append, List.length_singleton]
  split
  · have hnext : ls.length + 1 - tailLimit = ls.length - tailLimit + 1 := by omega
    have hle : ls.length - tailLimit + 1 ≤ ls.length := by omega
    rw [hnext, List.drop_append_of_le_length hle, List.drop_drop]
  · have hroom : ls.length - tailLimit = 0 := by omega
    have hnext : ls.length + 1 - tailLimit = 0 := by omega
    rw [hroom, hnext]
    rfl

/-- The drain has read these lines, up to the first that is no text. -/
structure HasRead (ls : List (List UInt8)) (d : Drain) : Prop where
  tail : d.tail = recent (legible ls)
  reading : d.reading = true ↔ AllText ls

theorem hasRead_line {ls : List (List UInt8)} {d : Drain} (h : d.HasRead ls) (l : List UInt8) :
    (d.line l).HasRead (ls ++ [l]) := by
  by_cases hall : AllText ls
  · have hopen : d.reading = true := h.reading.mpr hall
    cases hl : Utf8.decode? l with
    | none =>
        refine ⟨?_, ?_⟩
        · simp [line, hopen, hl, h.tail, legible_append_of_allText _ hall, legible]
        · simp [line, hopen, hl, allText_append, allText_singleton]
    | some s =>
        refine ⟨?_, ?_⟩
        · simp [line, hopen, hl, h.tail, legible_append_of_allText _ hall, legible, push_recent]
        · simp [line, hopen, hl, allText_append, allText_singleton, hall]
  · have hclosed : d.reading = false := by simpa [hall] using h.reading
    rw [line, hclosed]
    refine ⟨?_, ?_⟩
    · rw [legible_append_of_not_allText _ hall]
      exact h.tail
    · exact iff_of_false (by simp [hclosed]) fun hmore => hall (allText_append.mp hmore).1

theorem hasRead_foldl (ls : List (List UInt8)) : ∀ {before : List (List UInt8)} {d : Drain},
    d.HasRead before → (ls.foldl line d).HasRead (before ++ ls) := by
  induction ls with
  | nil => exact fun h => (List.append_nil _).symm ▸ h
  | cons l rest ih => exact fun h => List.append_cons _ _ _ ▸ ih (hasRead_line h l)

/-- What the drain knows of the octets that came so far. -/
structure Drained (bs : List UInt8) (d : Drain) : Prop extends d.HasRead (completed bs) where
  pending : d.reading = true → d.pending = underway bs

theorem drained_nil : Drained [] {} where
  tail := rfl
  reading := iff_of_true rfl nofun
  pending _ := rfl

theorem take_of_closed {d : Drain} (h : d.reading = false) (octets : List UInt8) :
    d.take octets = d := by
  simp [take, h]

theorem foldl_take_of_closed {d : Drain} (h : d.reading = false) (chunks : List (List UInt8)) :
    chunks.foldl take d = d := by
  induction chunks with
  | nil => rfl
  | cons octets rest ih => rwa [List.foldl_cons, take_of_closed h]

theorem tail_finish_of_closed {d : Drain} (h : d.reading = false) :
    d.finish.tail = d.tail ∧ d.finish.reading = false := by
  have hline : d.line d.pending = d := by simp [line, h]
  rw [finish, hline]
  split <;> exact ⟨rfl, h⟩

/-- More octets come. -/
theorem drained_take {bs : List UInt8} {d : Drain} (h : Drained bs d) (octets : List UInt8) :
    Drained (bs ++ octets) (d.take octets) := by
  by_cases hopen : d.reading = true
  · have hread := hasRead_foldl (completed (underway bs ++ octets)) h.toHasRead
    rw [← completed_append] at hread
    have htake : d.take octets = { (completed (underway bs ++ octets)).foldl line d with
        pending := underway (underway bs ++ octets) } := by
      rw [take, hopen, h.pending hopen, completed, List.foldl_map]
      rfl
    rw [htake]
    exact { tail := hread.tail
            reading := hread.reading
            pending := fun _ => (underway_append _ _).symm }
  · have hclosed : ¬ AllText (completed bs) := mt h.reading.mpr hopen
    have hmore : ¬ AllText (completed (bs ++ octets)) := fun hall => by
      rw [completed_append] at hall
      exact hclosed (allText_append.mp hall).1
    rw [take_of_closed (Bool.eq_false_of_not_eq_true hopen)]
    refine { tail := ?_, reading := iff_of_false hopen hmore, pending := fun h => absurd h hopen }
    rw [completed_append, legible_append_of_not_allText _ hclosed]
    exact h.tail

/-- In whatever chunks the octets come. -/
theorem drained_foldl (chunks : List (List UInt8)) : ∀ {bs : List UInt8} {d : Drain},
    Drained bs d → Drained (bs ++ chunks.flatten) (chunks.foldl take d) := by
  induction chunks with
  | nil => exact fun h => (List.append_nil _).symm ▸ h
  | cons octets rest ih =>
      intro bs d h
      rw [List.flatten_cons, ← List.append_assoc]
      exact ih (drained_take h octets)

/-- The end makes a line of what is under way. -/
theorem hasRead_finish {bs : List UInt8} {d : Drain} (h : Drained bs d) :
    d.finish.HasRead (lines bs) := by
  have hpending : d.reading = true → d.pending = underway bs := h.pending
  rw [lines_eq]
  by_cases hopen : d.reading = true
  · rw [finish, hpending hopen]
    split
    · rw [List.append_nil]
      exact h.toHasRead
    · exact { hasRead_line h.toHasRead (underway bs) with }
  · have hclosed : ¬ AllText (completed bs) := mt h.reading.mpr hopen
    obtain ⟨htail, hreading⟩ := tail_finish_of_closed (Bool.eq_false_of_not_eq_true hopen)
    refine ⟨?_, iff_of_false (by simp [hreading]) fun h => hclosed (allText_append.mp h).1⟩
    rw [htail, legible_append_of_not_allText _ hclosed]
    exact h.tail

end Drain

/-! ## The server -/

/-- A process that has not ended writes to its error output. -/
def utter (p : Process) (c : Chunk) : Process :=
  if p.exited.isSome then p else { p with clock := c.time }.complain c.octets

/-- Nothing was written yet to the error output of a process. -/
structure Unheard (p : Process) : Prop where
  errors : p.errors = {}
  closed : p.errorsClosed = none
  exited : p.exited = none

/-- Behind the octets `bs`, a chunk ends a line that is no text, and another one comes at a later
instant. -/
inductive WritesOn : List UInt8 → List Chunk → Prop
  | here {bs : List UInt8} {c d : Chunk} {later : List Chunk} :
      ¬ AllText (completed (bs ++ c.octets)) → d ∈ later → c.time < d.time →
      WritesOn bs (c :: later)
  | later {bs : List UInt8} {c : Chunk} {rest : List Chunk} :
      AllText (completed (bs ++ c.octets)) → WritesOn (bs ++ c.octets) rest →
      WritesOn bs (c :: rest)

/-- Only a line that is no text makes a write fail. -/
theorem not_allText_of_writesOn {bs : List UInt8} {cs : List Chunk} (h : WritesOn bs cs) :
    ¬ AllText (completed (bs ++ (cs.map Chunk.octets).flatten)) := by
  induction h with
  | here hbroken =>
      rw [List.map_cons, List.flatten_cons, ← List.append_assoc, completed_append]
      exact fun h => hbroken (allText_append.mp h).1
  | later _ _ ih => rwa [List.map_cons, List.flatten_cons, ← List.append_assoc]

section Server

variable {p : Process}

theorem foldl_utter_of_exited (cs : List Chunk) (h : p.exited.isSome = true) :
    cs.foldl utter p = p := by
  induction cs with
  | nil => rfl
  | cons c rest ih => rwa [List.foldl_cons, utter, if_pos h]

/-- The process is ended by a write if `P`, and goes on otherwise; in both cases `tail` is kept of
what it wrote. -/
structure Leaves (P : Prop) (tail : List String) (p : Process) : Prop where
  ended : P → p.status? = some (.signal pipeSignal)
  goesOn : ¬ P → p.exited = none
  tail : p.errors.tail = tail

/-- No one listens from the instant `t` on: the first write after that is the last. -/
theorem leaves_of_closed {t : Instant} (cs : List Chunk) : ∀ {p : Process},
    p.exited = none → p.errorsClosed = some t → p.errors.reading = false →
      Leaves (∃ d ∈ cs, t < d.time) p.errors.tail (cs.foldl utter p) := by
  induction cs with
  | nil => exact fun hexited _ _ => ⟨nofun, fun _ => hexited, rfl⟩
  | cons c rest ih =>
      intro p hexited hclosed hreading
      have hutter : utter p c = { p with clock := c.time }.complain c.octets :=
        if_neg (by simp [hexited])
      rw [List.foldl_cons, hutter, Process.complain, hclosed]
      by_cases hlate : t < c.time
      · rw [if_pos (by simpa using hlate), foldl_utter_of_exited rest rfl]
        exact ⟨fun _ => rfl, fun h => absurd ⟨c, List.mem_cons_self, hlate⟩ h,
          (Drain.tail_finish_of_closed hreading).1⟩
      · rw [if_neg (by simpa using hlate)]
        simp only [Drain.take_of_closed hreading]
        have hrest := ih (p := { p with
          clock := c.time, errorsClosed := if p.errors.reading then none else some t })
          hexited (if_neg (by simp [hreading])) hreading
        have hiff : (∃ d ∈ c :: rest, t < d.time) ↔ ∃ d ∈ rest, t < d.time := by
          simp [hlate]
        rw [hiff]
        exact hrest

/-- As long as every line is a text someone listens. -/
theorem leaves_of_open (cs : List Chunk) : ∀ {p : Process} {bs : List UInt8},
    p.exited = none → p.errorsClosed = none → AllText (completed bs) → p.errors.Drained bs →
      Leaves (WritesOn bs cs) ((cs.map Chunk.octets).foldl Drain.take p.errors).tail
        (cs.foldl utter p) := by
  induction cs with
  | nil => exact fun hexited _ _ _ => ⟨nofun, fun _ => hexited, rfl⟩
  | cons c rest ih =>
      intro p bs hexited hopen hall hdrained
      have hutter : utter p c = { p with clock := c.time }.complain c.octets :=
        if_neg (by simp [hexited])
      have hnext := Drain.drained_take hdrained c.octets
      have hcomplain : { p with clock := c.time }.complain c.octets = { p with
          clock := c.time, errors := p.errors.take c.octets,
          errorsClosed := if (p.errors.take c.octets).reading then none else some c.time } := by
        rw [Process.complain, hopen]
        rfl
      rw [List.foldl_cons, hutter, hcomplain, List.map_cons, List.foldl_cons]
      by_cases htext : AllText (completed (bs ++ c.octets))
      · have hreading := hnext.reading.mpr htext
        have hiff : WritesOn bs (c :: rest) ↔ WritesOn (bs ++ c.octets) rest := by
          refine ⟨fun h => ?_, .later htext⟩
          cases h with
          | here hbroken => exact absurd htext hbroken
          | later _ h => exact h
        rw [hiff, if_pos hreading]
        exact ih (p := { p with
          clock := c.time, errors := p.errors.take c.octets, errorsClosed := none })
          hexited rfl htext hnext
      · have hreading : (p.errors.take c.octets).reading = false := by
          simpa [htext] using hnext.reading
        have hiff : WritesOn bs (c :: rest) ↔ ∃ d ∈ rest, c.time < d.time := by
          refine ⟨fun h => ?_, fun ⟨d, hmem, hlate⟩ => .here htext hmem hlate⟩
          cases h with
          | here _ hmem hlate => exact ⟨_, hmem, hlate⟩
          | later h => exact absurd h htext
        rw [hiff, Drain.foldl_take_of_closed hreading, hreading]
        exact leaves_of_closed (p := { p with
          clock := c.time, errors := p.errors.take c.octets, errorsClosed := some c.time })
          rest hexited rfl hreading

end Server

/-- The error output is read to the first line that is no text, in whatever chunks it comes, and
at any moment the last of the lines that were read are kept.  If all lines so far are texts, these
are the last of all lines, someone listens still, and no write of the server failed.  Behind a
line that is no text nothing is read, and the first write at a later instant ends the server. -/
theorem drained_up_to_broken_line (cs : List Chunk) :
    let octets := (cs.map Chunk.octets).flatten
    let d := (cs.map Chunk.octets).foldl Drain.take {}
    d.HasRead (completed octets) ∧ d.finish.HasRead (lines octets) ∧
    (AllText (completed octets) → d.tail = recent ((completed octets).map Utf8.decodeLossy)) ∧
    (AllText (lines octets) → d.finish.tail = recent ((lines octets).map Utf8.decodeLossy)) ∧
    ∀ p : Process, Unheard p → Leaves (WritesOn [] cs) d.tail (cs.foldl utter p) ∧
      (AllText (completed octets) → (cs.foldl utter p).exited = none) := by
  have hd := Drain.drained_foldl (cs.map Chunk.octets) Drain.drained_nil
  have hend := Drain.hasRead_finish hd
  rw [List.nil_append] at hd hend
  refine ⟨hd.toHasRead, hend, fun h => ?_, fun h => ?_, fun p hp => ?_⟩
  · rw [hd.tail, legible_eq_map h]
  · rw [hend.tail, legible_eq_map h]
  · have hnil : p.errors.Drained [] := hp.errors ▸ Drain.drained_nil
    have hleaves := leaves_of_open cs hp.exited hp.closed (hnil.reading.mp (by rw [hp.errors])) hnil
    rw [hp.errors] at hleaves
    exact ⟨hleaves, fun h => hleaves.goesOn fun hon => not_allText_of_writesOn hon h⟩

/-- A line, one that is no text, and another a second later: the first is kept, the third is lost,
and the server is ended as it writes it. -/
theorem drain_of_broken_line :
    let cs : List Chunk := [⟨0, [111, 110, 101, 10, 255, 10]⟩, ⟨1000000000, [116, 119, 111, 10]⟩]
    let d := (cs.map Chunk.octets).foldl Drain.take {}
    (lines (cs.map Chunk.octets).flatten).map Utf8.decodeLossy = ["one", "\uFFFD", "two"] ∧
    d.finish.tail = ["one"] ∧ d.finish.reading ≠ true ∧
    ∀ p : Process, Unheard p → (cs.foldl utter p).status? = some (.signal pipeSignal) := by
  intro cs d
  have hone : Utf8.decode? [111, 110, 101] = some "one" := Utf8.decode_eq_some_iff.mpr (by decide)
  have htwo : Utf8.decode? [116, 119, 111] = some "two" := Utf8.decode_eq_some_iff.mpr (by decide)
  have hbad : Utf8.decode? [255] = none := by
    rw [Utf8.decode?, Utf8.pieces_beyond (by decide), Utf8.pieces]
    rfl
  have hlossy : Utf8.decodeLossy [255] = "\uFFFD" := by
    rw [Utf8.decodeLossy, Utf8.pieces_beyond (by decide), Utf8.pieces]
    rfl
  have hlines : lines (cs.map Chunk.octets).flatten
      = [[111, 110, 101], [255], [116, 119, 111]] := by decide
  have hcompleted : completed [111, 110, 101, 10, 255, 10] = [[111, 110, 101], [255]] := by decide
  have hbroken : ¬ AllText (completed [111, 110, 101, 10, 255, 10]) := fun h =>
    h [255] (by simp [hcompleted]) hbad
  have hlegible : legible [[111, 110, 101], [255], [116, 119, 111]] = ["one"] := by
    simp only [legible, hone, hbad]
  have hon : WritesOn [] cs := .here hbroken (List.mem_singleton_self _) (by decide)
  obtain ⟨-, hend, -, -, hserver⟩ := drained_up_to_broken_line cs
  rw [hlines] at hend ⊢
  refine ⟨?_, ?_, fun h => ?_, fun p hp => (hserver p hp).1.ended hon⟩
  · simp only [List.map_cons, List.map_nil, decodeLossy_of_decode hone, hlossy,
      decodeLossy_of_decode htwo]
  · exact hend.tail.trans (congrArg recent hlegible)
  · exact hend.reading.mp h [255] (by simp) hbad

end Conformance.Stdio
