/-
Conformance — where every setting of a run comes from.

The settings are listed one by one (`Key`), and so is what each layer has to say
of each: the options of the command line (`ofOptions`), the variables of the
process (`ofVariables`), the document in the file (`ofDocument`), and the
values built in (`builtIn`).  None of these knows of the others.

`settings_layers` says that what a run starts with has, for each setting, what
the first layer gives that gives anything, and that the tests get the directory
that these settings say.  The options are those that are found on the line, and
where that is written as options are (`Occurrence`), those that are written.
`settings_layers_of_a_run` is a run in which every layer has its say.
-/
import Conformance.Proofs.Settings.Occurrences
import Conformance.Proofs.Text.Encoding
import Conformance.Run.Application

namespace Conformance

namespace Settings

open CommandLine (Found)
open Toml (Item Entries)

/-! ## One by one -/

inductive Key where
  | logLevel
  | logFormat
  | command
  | args
  | cwd
  | projectRoot
  | clientName
  | clientVersion
  | requestSecs
  | testSecs
  | settleMillis
  | graceSecs
  | suites
deriving DecidableEq

/-- What a setting is; a directory may be left open. -/
abbrev Key.Value : Key → Type
  | logLevel | logFormat | command | clientName | clientVersion => String
  | args | suites => List String
  | cwd | projectRoot => Option String
  | requestSecs | testSecs | settleMillis | graceSecs => Nat

def get (s : Settings) : (k : Key) → k.Value
  | .logLevel => s.logging.level
  | .logFormat => s.logging.format
  | .command => s.server.command
  | .args => s.server.args
  | .cwd => s.server.cwd
  | .projectRoot => s.server.projectRoot
  | .clientName => s.client.name
  | .clientVersion => s.client.version
  | .requestSecs => s.timeouts.requestSecs
  | .testSecs => s.timeouts.testSecs
  | .settleMillis => s.timeouts.settleMillis
  | .graceSecs => s.timeouts.graceSecs
  | .suites => s.suites

/-- The settings have nothing else. -/
theorem eq_of_get {s s' : Settings} (h : ∀ k, s.get k = s'.get k) : s = s' := by
  obtain ⟨⟨_, _⟩, ⟨_, _, _, _⟩, ⟨_, _⟩, ⟨_, _, _, _⟩, _⟩ := s
  obtain ⟨⟨_, _⟩, ⟨_, _, _, _⟩, ⟨_, _⟩, ⟨_, _, _, _⟩, _⟩ := s'
  cases h .logLevel
  cases h .logFormat
  cases h .command
  cases h .args
  cases h .cwd
  cases h .projectRoot
  cases h .clientName
  cases h .clientVersion
  cases h .requestSecs
  cases h .testSecs
  cases h .settleMillis
  cases h .graceSecs
  cases h .suites
  rfl

/-! ## Built in -/

def builtIn : (k : Key) → k.Value
  | .logLevel => "info"
  | .logFormat => "compact"
  | .command => ""
  | .args => []
  | .cwd => none
  | .projectRoot => none
  | .clientName => "mcp-test-client"
  | .clientVersion => "1.0.0"
  | .requestSecs => 30
  | .testSecs => 120
  | .settleMillis => 1000
  | .graceSecs => 5
  | .suites => ["smoke", "stress", "edge-cases", "battle-prep", "performance"]

theorem get_builtIn (k : Key) : get {} k = builtIn k := by
  cases k <;> rfl

/-! ## The file -/

/-- Where a document has a setting: the section, the name in it, and the place in a section that is
a list. -/
structure Spot where
  group : String
  name : String
  place : Nat

def Key.spot : Key → Spot
  | logLevel => ⟨"logging", "level", 0⟩
  | logFormat => ⟨"logging", "format", 1⟩
  | command => ⟨"server", "command", 0⟩
  | args => ⟨"server", "args", 1⟩
  | cwd => ⟨"server", "cwd", 2⟩
  | projectRoot => ⟨"server", "project_root", 3⟩
  | clientName => ⟨"client", "name", 0⟩
  | clientVersion => ⟨"client", "version", 1⟩
  | requestSecs => ⟨"timeouts", "request_secs", 0⟩
  | testSecs => ⟨"timeouts", "test_secs", 1⟩
  | settleMillis => ⟨"timeouts", "settle_ms", 2⟩
  | graceSecs => ⟨"timeouts", "shutdown_grace_secs", 3⟩
  | suites => ⟨"run", "suites", 0⟩

/-- What a document has at a spot. -/
def itemAt (document : Entries) (spot : Spot) : Option Item :=
  match document.lookup spot.group with
  | some (.table _ entries) => entries.lookup spot.name
  | some (.list xs) => xs[spot.place]?
  | some (.tables ts) => ts[spot.place]?.map (.table .header)
  | _ => none

/-- The value that an item is. -/
def Key.read : (k : Key) → Item → Option k.Value
  | logLevel | logFormat | command | clientName | clientVersion => text?
  | args | suites => texts?
  | cwd | projectRoot => fun item => (text? item).map some
  | requestSecs | testSecs | settleMillis | graceSecs => nat?

/-- What the document has to say. -/
def ofDocument (document : Entries) (k : Key) : Option k.Value :=
  (itemAt document k.spot).bind k.read

/-- A section has its fields at their spots. -/
theorem item_of_fields {document : Entries} {group : String} {names : List String} {f : Fields}
    (h : fields? names (document.lookup group) = some f) (name : String) :
    f.item? name = itemAt document ⟨group, name, names.idxOf name⟩ := by
  unfold itemAt
  cases hlookup : document.lookup group with
  | none =>
      rw [hlookup] at h
      cases h
      rfl
  | some item =>
      rw [hlookup] at h
      cases item <;> cases h <;> rfl

/-- The value is what the document has at the spot, which is never passed over, or else the
default. -/
structure Says {α : Type} (document : Entries) (spot : Spot) (read : Item → Option α)
    (default value : α) : Prop where
  value : value = ((itemAt document spot).bind read).getD default
  read : ∀ item, itemAt document spot = some item → (read item).isSome = true

theorem says_of_field {α : Type} {document : Entries} {group name : String} {names : List String}
    {f : Fields} {read : Item → Option α} {default a : α}
    (hf : fields? names (document.lookup group) = some f)
    (h : field f name read default = some a) :
    Says document ⟨group, name, names.idxOf name⟩ read default a := by
  rw [field, item_of_fields hf] at h
  cases hitem : itemAt document ⟨group, name, names.idxOf name⟩ with
  | none =>
      rw [hitem] at h
      cases h
      exact ⟨by rw [hitem]; rfl, by simp [hitem]⟩
  | some item =>
      rw [hitem] at h
      exact ⟨by simp [hitem, h], by simp [hitem, h]⟩

/-- Each setting is what the document says. -/
theorem says_of_document {document : Entries} {s : Settings} (h : ofEntries? document = some s)
    (k : Key) : Says document k.spot k.read (builtIn k) (s.get k) := by
  simp only [ofEntries?, Option.bind_eq_bind, Option.bind_eq_some_iff] at h
  obtain ⟨logging, hlogging, server, hserver, client, hclient, timeouts, htimeouts, suites,
    hsuites, h⟩ := h
  cases h
  simp only [logging?, server?, client?, timeouts?, suites?, Option.bind_eq_bind,
    Option.bind_eq_some_iff] at hlogging hserver hclient htimeouts hsuites
  obtain ⟨_, hl, _, hlevel, _, hformat, h⟩ := hlogging
  cases h
  obtain ⟨_, hs, _, hcommand, _, hargs, _, hcwd, _, hroot, h⟩ := hserver
  cases h
  obtain ⟨_, hc, _, hname, _, hversion, h⟩ := hclient
  cases h
  obtain ⟨_, ht, _, hrequest, _, htest, _, hsettle, _, hgrace, h⟩ := htimeouts
  cases h
  obtain ⟨_, hr, hsuites⟩ := hsuites
  -- the section with its names fixes the spot, so each case only has to name its field
  cases k with
  | logLevel => exact says_of_field hl hlevel
  | logFormat => exact says_of_field hl hformat
  | command => exact says_of_field hs hcommand
  | args => exact says_of_field hs hargs
  | cwd => exact says_of_field hs hcwd
  | projectRoot => exact says_of_field hs hroot
  | clientName => exact says_of_field hc hname
  | clientVersion => exact says_of_field hc hversion
  | requestSecs => exact says_of_field ht hrequest
  | testSecs => exact says_of_field ht htest
  | settleMillis => exact says_of_field ht hsettle
  | graceSecs => exact says_of_field ht hgrace
  | suites => exact says_of_field hr hsuites

/-! ## The environment -/

/-- The text of a variable, if it is set and its value is a text. -/
def textOf (entries : List (List UInt8)) (name : String) : Option String :=
  (octetsOf? entries name).bind Utf8.decode?

theorem textOf_eq_some {entries : List (List UInt8)} {name text : String}
    (h : octetsOf? entries name = some (Utf8.encode text)) : textOf entries name = some text := by
  rw [textOf, h]
  exact Utf8.decode_eq_some_iff.mpr rfl

/-- A length of time in a variable: a number, and not zero. -/
def secondsOf (entries : List (List UInt8)) (name : String) : Option Nat :=
  ((textOf entries name).bind Text.word?).filter (0 < ·)

/-- What the environment has to say. -/
def ofVariables (entries : List (List UInt8)) : (k : Key) → Option k.Value
  | .logLevel => textOf entries "MCP_HARNESS_LOG_LEVEL"
  | .logFormat => textOf entries "MCP_HARNESS_LOG_FORMAT"
  | .command => textOf entries "MCP_HARNESS_SERVER_COMMAND"
  | .requestSecs => secondsOf entries "MCP_HARNESS_REQUEST_TIMEOUT_SECS"
  | .testSecs => secondsOf entries "MCP_HARNESS_TEST_TIMEOUT_SECS"
  | .args | .cwd | .projectRoot | .clientName | .clientVersion | .settleMillis | .graceSecs
  | .suites => none

theorem lookup_filterMap {f : String → Option String} {name : String} (names : List String) :
    (names.filterMap fun n => (f n).map (n, ·)).lookup name
      = if name ∈ names then f name else none := by
  induction names with
  | nil => rfl
  | cons n names ih =>
      by_cases hname : name = n
      · subst hname
        cases hf : f name <;> simp [hf, ih]
      · have hne : (name == n) = false := beq_false_of_ne hname
        cases hf : f n <;> simp [hf, ih, hname, hne, List.lookup_cons]

theorem lookup_ofProcess (entries : List (List UInt8)) {name : String}
    (hname : name ∈ variableNames) :
    (Environment.ofProcess entries).lookup name = textOf entries name :=
  (lookup_filterMap variableNames).trans (if_pos hname)

theorem get_underEnvironment (entries : List (List UInt8)) (s : Settings) (k : Key) :
    (s.underEnvironment (.ofProcess entries)).get k = (ofVariables entries k).getD (s.get k) := by
  have hlookup : ∀ name ∈ variableNames,
      (Environment.ofProcess entries).lookup name = textOf entries name :=
    fun _ => lookup_ofProcess entries
  simp only [variableNames, List.forall_mem_cons] at hlookup
  obtain ⟨-, hlevel, hformat, hcommand, hrequest, htest, -⟩ := hlookup
  cases k with
  | logLevel => simp only [get, underEnvironment, hlevel]; rfl
  | logFormat => simp only [get, underEnvironment, hformat]; rfl
  | command => simp only [get, underEnvironment, hcommand]; rfl
  | requestSecs => simp only [get, underEnvironment, positive?, hrequest]; rfl
  | testSecs => simp only [get, underEnvironment, positive?, htest]; rfl
  | _ => rfl

/-! ## The command line -/

/-- The number that a text is. -/
def numberOf (text : String) : Nat := (Text.word? text).getD 0

/-- What the options of a run have to say.  A command brings its arguments along, even if there are
none. -/
def ofOptions (options : Found) : (k : Key) → Option k.Value
  | .command => options.value? "command"
  | .args =>
      if options.has "command" || options.has "arg" then some (options.values "arg") else none
  | .cwd => (options.value? "cwd").map some
  | .projectRoot => (options.value? "project-root").map some
  | .suites =>
      if options.has "smoke-only" then some ["smoke"]
      else if options.has "suite" then some (options.values "suite")
      else none
  | .settleMillis => (options.value? "settle-ms").map numberOf
  | .requestSecs => (options.value? "request-timeout-secs").map numberOf
  | .testSecs => (options.value? "test-timeout-secs").map numberOf
  | .logLevel | .logFormat | .clientName | .clientVersion | .graceSecs => none

theorem isEmpty_values (options : Found) (name : String) :
    (options.values name).isEmpty = !options.has name := by
  induction options with
  | nil => rfl
  | cons option rest ih =>
      obtain ⟨n, v⟩ := option
      simp only [Found.values, Found.has, List.filter_cons, List.lookup_cons] at ih ⊢
      by_cases hname : n = name
      · simp [hname]
      · simpa [hname, beq_false_of_ne (Ne.symm hname)] using ih

/-- A number that was given is never passed over. -/
theorem word_of_checked {options : Found}
    (hc : CommandLine.Checked CommandLine.runLevel options) (name : String)
    (hkind : ∀ o ∈ CommandLine.runLevel.options, o.long = name →
      o.kind = .value .word false false) :
    options.word? name = (options.value? name).map numberOf := by
  rw [Found.word?]
  cases hvalue : options.value? name with
  | none => rfl
  | some v =>
      obtain ⟨n, hn⟩ := CommandLine.number_of_checked hc hkind hvalue
      simp [numberOf, hn]

theorem get_apply {options : Found} (hc : CommandLine.Checked CommandLine.runLevel options)
    (s : Settings) (k : Key) :
    ((CommandLine.runFlags options).apply s).get k = (ofOptions options k).getD (s.get k) := by
  cases k with
  | args =>
      simp only [get, RunFlags.apply, ServerFlags.apply, CommandLine.runFlags,
        CommandLine.serverFlags, isEmpty_values, Bool.not_not, ofOptions]
      change (if options.has "command" || options.has "arg" then _ else _) = _
      split <;> rfl
  | cwd =>
      simp only [get, RunFlags.apply, ServerFlags.apply, CommandLine.runFlags,
        CommandLine.serverFlags, ofOptions]
      cases options.value? "cwd" <;> rfl
  | projectRoot =>
      simp only [get, RunFlags.apply, ServerFlags.apply, CommandLine.runFlags, ofOptions]
      cases options.value? "project-root" <;> rfl
  | suites =>
      simp only [get, RunFlags.apply, CommandLine.runFlags, isEmpty_values, ofOptions]
      cases options.has "smoke-only" <;> cases options.has "suite" <;> rfl
  | settleMillis =>
      simp only [get, RunFlags.apply, CommandLine.runFlags, ofOptions,
        word_of_checked hc "settle-ms" (by decide)]
  | requestSecs =>
      simp only [get, RunFlags.apply, CommandLine.runFlags, ofOptions,
        word_of_checked hc "request-timeout-secs" (by decide)]
  | testSecs =>
      simp only [get, RunFlags.apply, CommandLine.runFlags, ofOptions,
        word_of_checked hc "test-timeout-secs" (by decide)]
  | command | logLevel | logFormat | clientName | clientVersion | graceSecs => rfl

/-! ## All layers -/

/-- The document in the settings file: an empty one, if no file is named, or none is there. -/
inductive Document (files : Machine.Files) : Option String → Entries → Prop
  | unnamed : Document files none []
  | missing {path : String} : files.isThere path = false → Document files (some path) []
  | given {path text : String} {document : Entries} : files.isThere path = true →
      files.readText path = .ok text → Toml.parse? text = some document →
      (ofEntries? document).isSome = true → Document files (some path) document

theorem says_of_nothing (k : Key) : Says [] k.spot k.read (builtIn k) (get {} k) where
  value := get_builtIn k
  read _ h := nomatch h

variable {files : Machine.Files} {entries : List (List UInt8)} {document : Entries}

/-- The file and the environment give the settings of the document, with the environment over
them. -/
theorem load_of_document {given : Option String}
    (h : Document files (given.or (textOf entries "MCP_HARNESS_CONFIG")) document) :
    ∃ s : Settings, (∀ k, Says document k.spot k.read (builtIn k) (s.get k)) ∧
      load files (.ofProcess entries) given = .ok (s.underEnvironment (.ofProcess entries)) := by
  have hpath : path? (.ofProcess entries) given
      = given.or (textOf entries "MCP_HARNESS_CONFIG") :=
    congrArg given.or (lookup_ofProcess entries (by decide))
  rw [load, hpath]
  generalize given.or (textOf entries "MCP_HARNESS_CONFIG") = path at h
  cases h with
  | unnamed => exact ⟨{}, says_of_nothing, rfl⟩
  | missing hmissing =>
      refine ⟨{}, says_of_nothing, ?_⟩
      simp only [ofFile, hmissing]
      rfl
  | given hthere htext hparse hdecode =>
      obtain ⟨s, hs⟩ := Option.isSome_iff_exists.mp hdecode
      refine ⟨s, says_of_document hs, ?_⟩
      simp only [ofFile, hthere, htext, ofText?, hparse, Option.bind_some, hs]
      rfl

open CommandLine in
/-- A run starts with settings each of which is the option of the command line if it is given, else
the variable if it is set and will do, else what the file says, else the value built in; what the
file says is never passed over.  The file is the one that an option names, behind the command or in
front of it, else the one that a variable names; and the tests get the project root of these
settings, else the directory of the server, else the working directory.  The options of a line are
those that are written on it. -/
theorem settings_layers {args : List String} {front behind : Found}
    (hargs : CommandLine.RunsWith args front behind)
    (hfile : Document files (((behind.value? "config").or (front.value? "config")).or
      (textOf entries "MCP_HARNESS_CONFIG")) document) :
    (∀ (given : List (Occurrence topLevel)) (options : List (Occurrence runLevel)),
      Consistent given → Consistent options →
      args = tokensOf given ++ "run" :: tokensOf options →
        front = foundOf given ∧ behind = foundOf options) ∧
    ∃ s : Settings,
      Application.execute files (.ofProcess entries) args
        = Application.run Machine.Server.transport (Application.spawn files) s ∧
      (∀ k, s.get k = (((ofOptions behind k).or (ofVariables entries k)).or
        (ofDocument document k)).getD (builtIn k)) ∧
      (∀ (k : Key) item, itemAt document k.spot = some item → (k.read item).isSome = true) ∧
      ∀ (σ : Type) (T : Transport σ) start session, s.fault = none →
        start s.clientOptions s.serverCommand = .done (.ok session) →
        Application.run T start s = Application.conduct
          { transport := T
            client := s.clientOptions
            runner := s.runnerOptions
            project := ((s.get .projectRoot).or (s.get .cwd)).getD "." }
          (s.get .suites) session := by
  obtain ⟨hparse, -⟩ := CommandLine.parse_run_iff.mpr ⟨front, behind, hargs, rfl, rfl⟩
  obtain ⟨s, hstated, hload⟩ := load_of_document hfile
  refine ⟨fun _ _ hgiven hoptions hline => found_of_occurrences hgiven hoptions (hline ▸ hargs),
    (CommandLine.runFlags behind).apply (s.underEnvironment (.ofProcess entries)), ?_,
    fun k => ?_, fun k => (hstated k).read, fun σ T start session hfault hstart => ?_⟩
  · rw [Application.execute, hparse]
    dsimp only [CommandLine.join]
    rw [hload]
    rfl
  · rw [get_apply (CommandLine.checked_of_runsWith hargs), get_underEnvironment, (hstated k).value,
      Option.getD_or, Option.getD_or]
    rfl
  · rw [Application.run, hfault]
    dsimp only
    rw [hstart]
    rfl

/-- A machine with one file. -/
def oneFile (content : List UInt8) : Machine.Files :=
  { nodes := [(["s"], .file content false)] }

theorem steps_oneFile : Machine.Files.steps "/s" = ["", "s"] := by
  rw [Machine.Files.steps, String.splitOn, if_neg (by decide)]
  -- once for the slash, once for the letter, once for the end
  unfold String.splitOnAux
  unfold String.splitOnAux
  unfold String.splitOnAux
  rfl

theorem resolve_oneFile (content : List UInt8) : (oneFile content).resolve "/s" = .ok ["s"] := by
  rw [Machine.Files.resolve, steps_oneFile]
  rfl

theorem isThere_oneFile (content : List UInt8) : (oneFile content).isThere "/s" = true := by
  rw [Machine.Files.isThere, resolve_oneFile]

theorem readText_oneFile (text : String) :
    (oneFile (Utf8.encode text)).readText "/s" = .ok text := by
  have hread : (oneFile (Utf8.encode text)).read "/s" = .ok (Utf8.encode text) := by
    rw [Machine.Files.read, resolve_oneFile]
    rfl
  rw [Machine.Files.readText, hread]
  dsimp only [bind, Except.bind]
  rw [Utf8.decode_eq_some_iff.mpr rfl]
  rfl

/-- Every layer has its say: the arguments, the timeout of a test and the suites are given on the
command line, the level and the command in the environment, the directory and the timeout of a
request in the file.  A format that is no text and a timeout of zero do not count. -/
theorem settings_layers_of_a_run :
    let text := "[server]\nargs=['x']\ncwd='/w'\n[timeouts]\nrequest_secs=7"
    let files := oneFile (Utf8.encode text)
    let entries := [Utf8.encode "MCP_HARNESS_CONFIG=/s",
      Utf8.encode "MCP_HARNESS_LOG_LEVEL=debug", Utf8.encode "MCP_HARNESS_LOG_FORMAT=" ++ [0xFF],
      Utf8.encode "MCP_HARNESS_SERVER_COMMAND=b",
      Utf8.encode "MCP_HARNESS_REQUEST_TIMEOUT_SECS=0"]
    let args := ["run", "--arg", "--y", "--test-timeout-secs", "+9", "--smoke-only"]
    ∃ s : Settings,
      Application.execute files (.ofProcess entries) args
        = Application.run Machine.Server.transport (Application.spawn files) s ∧
      s = { logging := { level := "debug" }
            server := { command := "b", args := ["--y"], cwd := some "/w" }
            timeouts := { requestSecs := 7, testSecs := 9 }
            suites := ["smoke"] } := by
  intro text files entries args
  have hargs : CommandLine.RunsWith args []
      [("arg", "--y"), ("test-timeout-secs", "+9"), ("smoke-only", "")] :=
    ⟨_, _, _, rfl, rfl, rfl, rfl⟩
  let document := (Toml.parse? text).get (by decide +kernel)
  have hparse : Toml.parse? text = some document := (Option.some_get _).symm
  have hpath : textOf entries "MCP_HARNESS_CONFIG" = some "/s" := textOf_eq_some rfl
  have hlevel : textOf entries "MCP_HARNESS_LOG_LEVEL" = some "debug" := textOf_eq_some rfl
  have hformat : textOf entries "MCP_HARNESS_LOG_FORMAT" = none := by
    rw [textOf, show octetsOf? entries "MCP_HARNESS_LOG_FORMAT" = some [0xFF] from rfl,
      Option.bind_some, Utf8.decode?, Utf8.pieces_beyond (by decide)]
    rfl
  have hcommand : textOf entries "MCP_HARNESS_SERVER_COMMAND" = some "b" := textOf_eq_some rfl
  have hrequest : textOf entries "MCP_HARNESS_REQUEST_TIMEOUT_SECS" = some "0" :=
    textOf_eq_some rfl
  have hfile := Document.given (isThere_oneFile _) (readText_oneFile text) hparse
    (by decide +kernel)
  rw [← hpath] at hfile
  obtain ⟨-, s, hrun, hlayers, -⟩ := settings_layers hargs hfile
  refine ⟨s, hrun, eq_of_get fun k => (hlayers k).trans ?_⟩
  cases k with
  | logLevel =>
      rw [ofVariables, hlevel]
      decide +kernel
  | logFormat =>
      rw [ofVariables, hformat]
      decide +kernel
  | command =>
      rw [ofVariables, hcommand]
      decide +kernel
  | requestSecs =>
      rw [ofVariables, secondsOf, hrequest]
      decide +kernel
  | args | cwd | projectRoot | clientName | clientVersion | testSecs | settleMillis | graceSecs
  | suites => decide +kernel

end Settings

end Conformance
