/-
Conformance — a server gets its arguments as they were given.

A command line of options is parsed, and means what they say.  Of the arguments of
the server nothing but the arguments of the server comes: without them the line
means the same for the rest (`runFlags_withoutArgs`, `serverFlags_withoutArgs`).

`StartsOnly` says that a server is started with one command and with no other.  A
blank program is no command: nothing is started then, although it was given.
-/
import Conformance.Proofs.Settings.Occurrences
import Conformance.Proofs.Wait.Judgement
import Conformance.Run.Application

namespace Conformance

namespace CommandLine

variable {level : Level}

/-! ## The program and its arguments -/

def argOption : OptionSpec := { long := "arg", kind := .value .text true true }

def commandOption : OptionSpec := { long := "command", kind := .value .text false false }

theorem plain_of_head {s : String} (h : s.toList.head? ≠ some '-') : Token.of s = .plain := by
  unfold Token.of
  split <;> simp_all

/-- An argument of the server, whatever it is. -/
def Occurrence.arg (a : String) (h : argOption ∈ level.options) : Occurrence level :=
  ⟨argOption, a, ["--arg", a], h, .apart rfl rfl (.inl rfl)⟩

/-- The program of the server; it starts with no hyphen. -/
def Occurrence.program (p : String) (hp : p.toList.head? ≠ some '-')
    (h : commandOption ∈ level.options) : Occurrence level :=
  ⟨commandOption, p, ["--command", p], h, .apart rfl rfl (.inr (plain_of_head hp))⟩

/-- The line without the arguments of the server. -/
def withoutArgs (xs : List (Occurrence level)) : List (Occurrence level) :=
  xs.filter fun x => x.option.long != "arg"

section Without

variable (xs : List (Occurrence level))

theorem givenTo_withoutArgs {name : String} (hname : name ≠ "arg") :
    givenTo name (withoutArgs xs) = givenTo name xs := by
  rw [givenTo, givenTo, withoutArgs, List.filter_filter]
  congr 1
  refine List.filter_congr fun x _ => ?_
  by_cases hx : x.option.long = name
  · simp [hx, hname]
  · simp [hx]

theorem args_withoutArgs : givenTo "arg" (withoutArgs xs) = [] := by
  rw [givenTo, withoutArgs, List.filter_filter, List.map_eq_nil_iff, List.filter_eq_nil_iff]
  intro x _
  simp

theorem lookup_withoutArgs {name : String} (hname : name ≠ "arg") :
    (foundOf (withoutArgs xs)).lookup name = (foundOf xs).lookup name := by
  rw [lookup_foundOf, lookup_foundOf, givenTo_withoutArgs xs hname]

theorem serverFlags_foundOf : serverFlags (foundOf xs)
    = { command := (givenTo "command" xs).head?, args := givenTo "arg" xs,
        cwd := (givenTo "cwd" xs).head? } := by
  simp only [serverFlags, Found.value?, lookup_foundOf, values_foundOf]

/-- Without the arguments the line gives the server the same, but no arguments. -/
theorem serverFlags_withoutArgs : serverFlags (foundOf (withoutArgs xs))
    = { serverFlags (foundOf xs) with args := [] } := by
  have hcommand := givenTo_withoutArgs xs (show "command" ≠ "arg" by decide)
  have hcwd := givenTo_withoutArgs xs (show "cwd" ≠ "arg" by decide)
  rw [serverFlags_foundOf, serverFlags_foundOf, hcommand, hcwd, args_withoutArgs]

/-- Without the arguments the line means the same for all the rest of a run. -/
theorem runFlags_withoutArgs : runFlags (foundOf (withoutArgs xs))
    = { runFlags (foundOf xs) with server := serverFlags (foundOf (withoutArgs xs)) } := by
  have hsuites := givenTo_withoutArgs xs (show "suite" ≠ "arg" by decide)
  have hroot := lookup_withoutArgs xs (show "project-root" ≠ "arg" by decide)
  have hsmoke := lookup_withoutArgs xs (show "smoke-only" ≠ "arg" by decide)
  have hsettle := lookup_withoutArgs xs (show "settle-ms" ≠ "arg" by decide)
  have hrequest := lookup_withoutArgs xs (show "request-timeout-secs" ≠ "arg" by decide)
  have htest := lookup_withoutArgs xs (show "test-timeout-secs" ≠ "arg" by decide)
  simp only [runFlags, Found.word?, Found.value?, Found.has, values_foundOf, hsuites, hroot,
    hsmoke, hsettle, hrequest, htest]

theorem join_withoutArgs (top : Found) (c : Command) :
    join top (foundOf (withoutArgs xs)) c = join top (foundOf xs) c := by
  have hverbose := lookup_withoutArgs xs (show "verbose" ≠ "arg" by decide)
  have hconfig := lookup_withoutArgs xs (show "config" ≠ "arg" by decide)
  simp only [join, Found.has, Found.value?, hverbose, hconfig]

/-- What is compatible stays so. -/
theorem consistent_withoutArgs {xs : List (Occurrence level)} (hxs : Consistent xs)
    (hlevel : ∀ p ∈ level.exclusive, p.1 ≠ "arg" ∧ p.2 ≠ "arg") : Consistent (withoutArgs xs) := by
  refine ⟨hxs.once.filter _, ?_⟩
  rw [← hxs.compatible, excluded, excluded, Bool.eq_iff_iff, List.any_eq_true, List.any_eq_true]
  refine exists_congr fun p => and_congr_right fun hp => ?_
  obtain ⟨hfst, hsnd⟩ := hlevel p hp
  rw [lookup_withoutArgs xs hfst, lookup_withoutArgs xs hsnd]

end Without

end CommandLine

/-! ## What is started -/

namespace Application

variable {σ : Type} {T : Transport σ} {s : Settings}

/-- `f`, which is given the means to start a server, starts one with command `c` and with no
other: it breaks down where that breaks down, and starts that turn out alike with `c` are all the
same to it. -/
structure StartsOnly (f : (ClientOptions → ServerCommand → Opened σ) → Outcome)
    (c : ServerCommand) : Prop where
  starts : ∀ start m, (∀ o, start o c = .crashed m) → ∃ printed, f start = broken printed m
  only : ∀ start start', (∀ o, start o c = start' o c) → f start = f start'

theorem startsOnly_run (h : s.fault = none) :
    StartsOnly (fun start => run T start s) s.serverCommand where
  starts start m hm := by
    refine ⟨"", ?_⟩
    simp only [run, h, hm]
  only start start' hsame := by simp only [run, h, hsame]

theorem startsOnly_quick (h : s.hasCommand = true) :
    StartsOnly (fun start => quick T start s) s.serverCommand where
  starts start m hm := by
    refine ⟨"Starting MCP server: " ++ s.serverCommand.text ++ "\n", ?_⟩
    simp only [quick, h, hm]
    rfl
  only start start' hsame := by simp only [quick, h, hsame]

/-- What starts no server is the same whatever a start would do. -/
theorem not_startsOnly_of_const {f : (ClientOptions → ServerCommand → Opened σ) → Outcome}
    {x : Outcome} (h : ∀ start, f start = x) (c : ServerCommand) : ¬ StartsOnly f c := by
  intro hf
  obtain ⟨printed, hp⟩ := hf.starts (fun _ _ => .crashed "a") "a" fun _ => rfl
  obtain ⟨printed', hp'⟩ := hf.starts (fun _ _ => .crashed "b") "b" fun _ => rfl
  have hcomplaint : "a" ++ "\n" = "b" ++ "\n" :=
    congrArg Outcome.complaint ((hp.symm.trans (h _)).trans ((h _).symm.trans hp'))
  exact absurd hcomplaint (by decide)

/-! ## Verbatim -/

open CommandLine

variable {front : List (Occurrence topLevel)}

/-- The settings of the server under what a line gives, its program among it. -/
theorem apply_of_given {level : Level} {behind : List (Occurrence level)} {p : String}
    (hp : givenTo "command" behind = [p]) (server : ServerSettings) :
    (serverFlags (foundOf behind)).apply server =
      { server with
        command := p
        args := givenTo "arg" behind
        cwd := (givenTo "cwd" behind).head?.or server.cwd } := by
  simp only [serverFlags_foundOf, ServerFlags.apply, hp, List.head?_cons, Option.getD_some,
    Option.isSome_some, Bool.true_or, if_true]

theorem execute_of_parse {files : Machine.Files} {env : Settings.Environment}
    {args : List String} {i : Invocation} {settings : Settings} (hparse : parse args = .ok i)
    (hload : Settings.load files env i.config = .ok settings) :
    execute files env args = carryOut files settings i.command := by
  simp only [execute, hparse, hload]

/-- The arguments of the server.  Of a command line that is a run or a quick look, with any
consistent options in front of the command and behind it, and program `p` given behind it: it is
parsed; the server's command is `p` with the values of `--arg`, whatever they are, in order; and
without them the line means the same but for the arguments.  The program then goes on as a run
or a quick look does with these settings; that starts a server with this command and no other,
if the settings have no fault or, for a quick look, the program is not blank. -/
theorem arguments_forwarded (front : List (Occurrence topLevel)) (hfront : Consistent front)
    (p : String) :
    (∀ behind : List (Occurrence runLevel), Consistent behind → givenTo "command" behind = [p] →
      ∃ i flags, parse (tokensOf front ++ "run" :: tokensOf behind) = .ok i ∧
        i.command = .run flags ∧
        parse (tokensOf front ++ "run" :: tokensOf (withoutArgs behind))
          = .ok { i with command := .run { flags with server := { flags.server with args := [] } } } ∧
        ∀ settings : Settings,
          let s := flags.apply settings
          s.serverCommand =
            { program := p
              args := givenTo "arg" behind
              cwd := (givenTo "cwd" behind).head?.or settings.server.cwd } ∧
          (∀ files env, Settings.load files env i.config = .ok settings →
            execute files env (tokensOf front ++ "run" :: tokensOf behind)
              = run Machine.Server.transport (spawn files) s) ∧
          (s.fault = none → ∀ {σ : Type} (T : Transport σ),
            StartsOnly (fun start => run T start s) s.serverCommand)) ∧
    ∀ behind : List (Occurrence quickLevel), Consistent behind → givenTo "command" behind = [p] →
      ∃ i flags, parse (tokensOf front ++ "quick" :: tokensOf behind) = .ok i ∧
        i.command = .quick flags ∧
        parse (tokensOf front ++ "quick" :: tokensOf (withoutArgs behind))
          = .ok { i with command := .quick { flags with args := [] } } ∧
        ∀ settings : Settings,
          let s := { settings with server := flags.apply settings.server }
          s.serverCommand =
            { program := p
              args := givenTo "arg" behind
              cwd := (givenTo "cwd" behind).head?.or settings.server.cwd } ∧
          (∀ files env, Settings.load files env i.config = .ok settings →
            execute files env (tokensOf front ++ "quick" :: tokensOf behind)
              = quick Machine.Server.transport (spawn files) s) ∧
          (¬ IsBlankText p → ∀ {σ : Type} (T : Transport σ),
            StartsOnly (fun start => quick T start s) s.serverCommand) := by
  constructor
  · intro behind hbehind hp
    have hrun : subcommand "run" = some (runLevel, fun f => .run (runFlags f)) := rfl
    have hparse := parse_of_occurrences hrun (by decide) clear_runLevel hfront hbehind
    have hwithout := parse_of_occurrences hrun (by decide) clear_runLevel hfront
      (consistent_withoutArgs hbehind (by decide))
    rw [join_withoutArgs, runFlags_withoutArgs, serverFlags_withoutArgs] at hwithout
    refine ⟨_, _, hparse, rfl, hwithout, fun settings => ?_⟩
    refine ⟨?_, fun files env hload => ?_, fun hfault σ T => startsOnly_run hfault⟩
    · simp only [Settings.serverCommand, RunFlags.apply, runFlags, apply_of_given hp]
    · rw [execute_of_parse hparse hload]
      rfl
  · intro behind hbehind hp
    have hquick : subcommand "quick" = some (quickLevel, fun f => .quick (serverFlags f)) := rfl
    have hparse := parse_of_occurrences hquick (by decide) clear_quickLevel hfront hbehind
    have hwithout := parse_of_occurrences hquick (by decide) clear_quickLevel hfront
      (consistent_withoutArgs hbehind (by decide))
    rw [join_withoutArgs, serverFlags_withoutArgs] at hwithout
    refine ⟨_, _, hparse, rfl, hwithout, fun settings => ?_⟩
    refine ⟨?_, fun files env hload => ?_, fun hblank σ T => startsOnly_quick ?_⟩
    · simp only [Settings.serverCommand, apply_of_given hp]
    · rw [execute_of_parse hparse hload]
      rfl
    · have htrim : (Text.trim p).isEmpty = false := trim_isEmpty_of_not_blank hblank
      simp only [Settings.hasCommand, apply_of_given hp, htrim, Bool.not_false]

/-- Arguments that look like options, an escape and a subcommand, between options of a run; and
the same for a quick look. -/
theorem arguments_forwarded_of_odd_arguments :
    let args := ["--command", "--", "run", ""]
    (∃ i flags, parse ["-v", "run", "--arg", "--command", "--command", "node", "--arg", "--",
        "--suite=smoke", "--arg", "run", "--arg", ""] = .ok i ∧ i.command = .run flags ∧
      (flags.apply {}).serverCommand = { program := "node", args } ∧
      StartsOnly (fun start => run Machine.Server.transport start (flags.apply {}))
        (flags.apply {}).serverCommand) ∧
    ∃ i flags, parse ["-v", "quick", "--arg", "--command", "--command", "node"] = .ok i ∧
      i.command = .quick flags ∧
      StartsOnly (fun start => quick Machine.Server.transport start
          { ({} : Settings) with server := flags.apply {} })
        { program := "node", args := ["--command"] } := by
  intro args
  let verbose : Occurrence topLevel :=
    ⟨{ long := "verbose", short := some 'v', kind := .flag }, "", ["-v"], by decide,
      .letter rfl rfl (by decide)⟩
  let suite : Occurrence runLevel :=
    ⟨{ long := "suite", kind := .value .text true false }, "smoke", ["--suite=smoke"], by decide,
      .attached rfl rfl⟩
  have hfront : Consistent [verbose] := ⟨List.pairwise_singleton _ _, rfl⟩
  obtain ⟨hrun, hquick⟩ := arguments_forwarded [verbose] hfront "node"
  constructor
  · let behind : List (Occurrence runLevel) :=
      [.arg "--command" (by decide), .program "node" (by decide) (by decide),
        .arg "--" (by decide), suite, .arg "run" (by decide), .arg "" (by decide)]
    have hbehind : Consistent behind := ⟨by simp [behind, suite]; decide, by decide⟩
    obtain ⟨i, flags, hparse, hcommand, _, hmeans⟩ := hrun behind hbehind rfl
    obtain ⟨hserver, _, hstarts⟩ := hmeans {}
    have hline : parse (tokensOf [verbose] ++ "run" :: tokensOf behind)
        = .ok
            { verbose := true
              config := none
              command := .run { server := { command := some "node", args }, suites := ["smoke"] } } :=
      rfl
    cases hparse.symm.trans hline
    cases hcommand
    exact ⟨_, _, rfl, rfl, hserver, hstarts (by decide +kernel) _⟩
  · let behind : List (Occurrence quickLevel) :=
      [.arg "--command" (by decide), .program "node" (by decide) (by decide)]
    have hbehind : Consistent behind := ⟨by simp [behind]; decide, by decide⟩
    obtain ⟨i, flags, hparse, hcommand, _, hmeans⟩ := hquick behind hbehind rfl
    obtain ⟨hserver, _, hstarts⟩ := hmeans {}
    refine ⟨i, flags, hparse, hcommand, ?_⟩
    have hnode : ¬ IsBlankText "node" := by decide
    exact hserver ▸ hstarts hnode _

/-- A blank program is parsed like any other, and no server is started. -/
theorem blank_program_not_started :
    let argv := ["quick", "--command", " "]
    " " ≠ "" ∧ " ".toList.head? ≠ some '-' ∧
      ∃ i flags, parse argv = .ok i ∧ i.command = .quick flags ∧ flags.command = some " " ∧
        ¬ ∃ c, StartsOnly (fun start => quick Machine.Server.transport start
          { ({} : Settings) with server := flags.apply {} }) c := by
  refine ⟨by decide, by decide, _, _, rfl, rfl, rfl, ?_⟩
  rintro ⟨c, hc⟩
  exact not_startsOnly_of_const (x := errored Settings.Fault.noCommand.message)
    (fun start => rfl) c hc

end Application

end Conformance
