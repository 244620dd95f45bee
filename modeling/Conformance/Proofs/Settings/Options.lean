/-
Conformance — the options of a command line.

What a level was read to holds only options of that level, each with a value
that will do (`Checked`): a value is checked before its option is recorded, and
reading never records anything else.  So an option that must be a number gives
one (`number_of_checked`).

A run is a command line of two levels, and the options found at each are all
that becomes of it (`parse_run_iff`).
-/
import Conformance.CommandLine.Invocation
import Conformance.Proofs.Json.Words

namespace Conformance.CommandLine

variable {level : Level} {r r' : Reading} {o : OptionSpec} {v : String}

/-! ## What is found is checked -/

/-- The options found are those of the level, and their values will do. -/
def Checked (level : Level) (found : Found) : Prop :=
  ∀ name v, (name, v) ∈ found → ∃ o ∈ level.options, o.long = name ∧ o.check v = .ok ()

/-- An option is met, and not settled yet. -/
inductive Pending.Meets : Pending → OptionSpec → Prop
  | awaiting {o : OptionSpec} : Meets (.awaiting o) o
  | holding {o : OptionSpec} {v : String} : Meets (.holding o v) o

/-- What was read so far knows no options but those of the level. -/
structure Reading.Sound (level : Level) (r : Reading) : Prop where
  found : Checked level r.found
  pending : ∀ o, r.pending.Meets o → o ∈ level.options

theorem sound_start : Reading.Sound level {} := ⟨nofun, nofun⟩

theorem Reading.Sound.await (hr : r.Sound level) (ho : o ∈ level.options) :
    Reading.Sound level { r with pending := .awaiting o } :=
  ⟨hr.found, fun _ h => by cases h; exact ho⟩

theorem Reading.Sound.hold (hr : r.Sound level) (ho : o ∈ level.options) :
    Reading.Sound level { r with pending := .holding o v } :=
  ⟨hr.found, fun _ h => by cases h; exact ho⟩

theorem Reading.Sound.record (hr : r.Sound level) (ho : o ∈ level.options)
    (h : r.record o v = .ok r') : r'.Sound level := by
  unfold Reading.record at h
  split at h
  · exact nomatch h
  · obtain ⟨_, hcheck, h⟩ := ok_of_bind h
    cases h
    refine ⟨fun name w hmem => ?_, nofun⟩
    rcases List.mem_append.mp hmem with hmem | hmem
    · exact hr.found name w hmem
    · cases List.mem_singleton.mp hmem
      exact ⟨o, ho, rfl, hcheck⟩

theorem Reading.Sound.resolve (hr : r.Sound level) (h : r.resolve = .ok r') :
    r'.Sound level := by
  unfold Reading.resolve at h
  split at h
  · cases h
    exact hr
  · exact nomatch h
  · rename_i o v hp
    exact hr.record (hr.pending o (hp ▸ .holding)) h

theorem Reading.Sound.flag (hr : r.Sound level) (ho : o ∈ level.options)
    (h : r.flag o = .ok r') : r'.Sound level := by
  obtain ⟨r₁, hresolve, h⟩ := ok_of_bind h
  split at h
  · exact nomatch h
  · exact nomatch h
  · exact (hr.resolve hresolve).record ho h

theorem Reading.Sound.long {name : String} {attached : Option String} (hr : r.Sound level)
    (h : r.long level name attached = .ok r') : r'.Sound level := by
  unfold Reading.long at h
  split at h
  · exact nomatch h
  · rename_i o hfind
    have ho : o ∈ level.options := List.mem_of_find?_eq_some hfind
    split at h
    · obtain ⟨r₁, hresolve, h⟩ := ok_of_bind h
      exact (hr.resolve hresolve).record ho h
    · obtain ⟨r₁, hresolve, h⟩ := ok_of_bind h
      cases h
      exact (hr.resolve hresolve).await ho
    · exact nomatch h
    · exact hr.flag ho h

theorem Reading.Sound.shorts : ∀ {cs : List Char} {r : Reading}, r.Sound level →
    Reading.shorts level cs r = .ok r' → r'.Sound level
  | [], _, hr, h => by
      cases h
      exact hr
  | c :: cs, r, hr, h => by
      unfold Reading.shorts at h
      split at h
      · exact nomatch h
      · rename_i o hfind
        obtain ⟨r₁, hflag, h⟩ := ok_of_bind h
        exact (hr.flag (List.mem_of_find?_eq_some hfind) hflag).shorts h

/-- Reading a level keeps to its options. -/
theorem sound_of_readLevel {result : LevelResult} : ∀ {ts : List String} {r : Reading},
    r.Sound level → readLevel level ts r = .ok result → result.reading.Sound level
  | [], _, hr, h => by
      cases h
      exact hr
  | t :: ts, r, hr, h => by
      have hescaped : Reading.Sound level { r with escaped := true } := ⟨hr.found, hr.pending⟩
      unfold readLevel at h
      split at h
      · exact nomatch h
      · split at h
        · rename_i o hawaited
          -- a value is due, so an option of the level was met before
          have ho : o ∈ level.options := by
            refine hr.pending o ?_
            unfold Reading.awaited at hawaited
            split at hawaited
            · cases hawaited
              rename_i hp
              exact hp ▸ .awaiting
            · exact nomatch hawaited
          split at h
          · exact sound_of_readLevel (hr.hold ho) h
          · split at h
            · exact sound_of_readLevel hescaped h
            · obtain ⟨r₁, hlong, h⟩ := ok_of_bind h
              exact sound_of_readLevel (hr.long hlong) h
            · obtain ⟨r₁, hshorts, h⟩ := ok_of_bind h
              exact sound_of_readLevel (hr.shorts hshorts) h
            · exact sound_of_readLevel (hr.hold ho) h
        · split at h
          · cases h
            exact hr
          · split at h
            · exact sound_of_readLevel hescaped h
            · obtain ⟨r₁, hlong, h⟩ := ok_of_bind h
              exact sound_of_readLevel (hr.long hlong) h
            · obtain ⟨r₁, hshorts, h⟩ := ok_of_bind h
              exact sound_of_readLevel (hr.shorts hshorts) h
            · exact nomatch h

theorem checked_of_close {found : Found} (hr : r.Sound level) (h : close level r = .ok found) :
    Checked level found := by
  obtain ⟨r₁, hresolve, h⟩ := ok_of_bind h
  split at h
  · exact nomatch h
  · cases h
    exact (hr.resolve hresolve).found

/-- An option that must be a number gives one. -/
theorem number_of_checked {found : Found} {name : String} (hc : Checked level found)
    (hkind : ∀ o ∈ level.options, o.long = name → o.kind = .value .word false false)
    (h : found.value? name = some v) : ∃ n, Text.word? v = some n := by
  obtain ⟨before, after, hfound, -⟩ := List.lookup_eq_some_iff.mp h
  obtain ⟨o, ho, hlong, hcheck⟩ := hc name v (hfound ▸ List.mem_append_cons_self)
  simp only [OptionSpec.check, hkind o ho hlong, ValueKind.check] at hcheck
  split at hcheck
  · exact Option.isSome_iff_exists.mp ‹_›
  · exact nomatch hcheck

/-! ## Runs -/

/-- The command line is a run, with these options in front of the command and behind it. -/
def RunsWith (args : List String) (front behind : Found) : Prop :=
  ∃ top rest sub, readLevel topLevel args {} = .ok { reading := top, sub := some ("run", rest) } ∧
    readLevel runLevel rest {} = .ok sub ∧ close runLevel sub.reading = .ok behind ∧
    close topLevel top = .ok front

variable {args : List String} {front behind : Found} {i : Invocation} {flags : RunFlags}

theorem checked_of_runsWith (h : RunsWith args front behind) : Checked runLevel behind := by
  obtain ⟨_, _, _, _, hread, hclose, _⟩ := h
  exact checked_of_close (sound_of_readLevel sound_start hread) hclose

/-- Only one of the commands is a run. -/
theorem subcommand_eq_run {name : String} {make : Found → Command} {f : Found}
    (h : subcommand name = some (level, make)) (hrun : make f = .run flags) :
    name = "run" ∧ level = runLevel ∧ flags = runFlags f := by
  unfold subcommand at h
  split at h
  · cases h
    cases hrun
    exact ⟨‹_›, rfl, rfl⟩
  · split at h
    · cases h
      exact nomatch hrun
    · split at h
      · cases h
        exact nomatch hrun
      · exact nomatch h

/-- What is taken from a run are the options of its two levels, and no other command line is a
run. -/
theorem parse_run_iff : parse args = .ok i ∧ i.command = .run flags ↔
    ∃ front behind, RunsWith args front behind ∧ flags = runFlags behind ∧
      i = join front behind (.run flags) := by
  constructor
  · rintro ⟨h, hrun⟩
    obtain ⟨⟨top, sub⟩, htop, h⟩ := ok_of_bind h
    cases sub with
    | none =>
        obtain ⟨f, _, h⟩ := ok_of_bind h
        exact nomatch h
    | some named =>
        obtain ⟨name, rest⟩ := named
        dsimp only at h
        split at h
        · exact nomatch h
        · rename_i level make hsub
          obtain ⟨sub, hread, h⟩ := ok_of_bind h
          obtain ⟨behind, hbehind, h⟩ := ok_of_bind h
          obtain ⟨front, hfront, h⟩ := ok_of_bind h
          cases h
          obtain ⟨rfl, rfl, rfl⟩ := subcommand_eq_run hsub hrun
          refine ⟨front, behind, ⟨top, rest, sub, htop, hread, hbehind, hfront⟩, rfl, ?_⟩
          rw [← hrun]
          rfl
  · rintro ⟨front, behind, ⟨top, rest, sub, htop, hread, hbehind, hfront⟩, rfl, rfl⟩
    have hsub : subcommand "run" = some (runLevel, fun f => .run (runFlags f)) := rfl
    simp [parse, htop, hsub, hread, hbehind, hfront, bind, Except.bind, join, pure, Except.pure]

end Conformance.CommandLine
