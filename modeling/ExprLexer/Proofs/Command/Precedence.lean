import ExprLexer.Proofs.Command.Arguments
import ExprLexer.Proofs.Command.Scan
import ExprLexer.Proofs.Settings.Load

/-!
# Precedence of settings

Each field of the settings of a scan comes from the last argument that sets it, else from the
configuration file, else it is as usual (`scan_settings`).
-/

namespace ExprLexer.Command

open ScanArgument (Spelled last? file? format? color? encoding? config?)

/-- The value of a field: the given one, else that of the first of its names among the entries of
the configuration, else the usual one. -/
inductive Precedence (given : Option α) (entries : List (Data × Data)) (names : List String)
    (usual : α) (read : Data → Except Schema.Cause α) : α → Prop
  | argument {value : α} (present : given = some value) :
      Precedence given entries names usual read value
  | file {name : String} {d : Data} {value : α} (absent : given = none)
      (found : Schema.find? entries names = some (name, d)) (reads : read d = .ok value) :
      Precedence given entries names usual read value
  | usual (absent : given = none) (missing : Schema.find? entries names = none) :
      Precedence given entries names usual read usual

theorem Precedence.eq_given {entries : List (Data × Data)} {names : List String} {usual value a : α}
    {read : Data → Except Schema.Cause α} (p : Precedence (some a) entries names usual read value) :
    value = a := by
  cases p with
  | argument present => exact (Option.some.inj present).symm
  | file absent => cases absent
  | usual absent => cases absent

theorem find?_nil (names : List String) : Schema.find? [] names = none := by
  induction names with
  | nil => rfl
  | cons name names ih => exact ih

theorem Precedence.eq_usual {names : List String} {usual value : α}
    {read : Data → Except Schema.Cause α} (p : Precedence none [] names usual read value) :
    value = usual := by
  cases p with
  | argument present => cases present
  | file _ found => cases found.symm.trans (find?_nil names)
  | usual => rfl

theorem precedence_getD {entries : List (Data × Data)} {names : List String} {usual value : α}
    {read : Data → Except Schema.Cause α} (given : Option α)
    (takes : Settings.Field.Takes entries names usual read value) :
    Precedence given entries names usual read (given.getD value) := by
  cases given with
  | some a => exact .argument rfl
  | none =>
    cases takes with
    | given found reads => exact .file rfl found reads
    | usual missing => exact .usual rfl missing

/-- The settings that arguments come to over the entries of a configuration. -/
structure Effective (as : List ScanArgument) (entries : List (Data × Data)) (s : Settings) :
    Prop where
  outputFormat : Precedence (last? format? as) entries ["output-format", "output_format"] .text
    (Schema.oneOf Format.all Format.name) s.outputFormat
  color : Precedence (last? color? as) entries ["color"] false Schema.flag s.color
  strict : Precedence (if .strict ∈ as then some true else none) entries ["strict"] false
    Schema.flag s.strict
  showDiagnostics : Precedence (if .quiet ∈ as then some false else none) entries
    ["show-diagnostics", "show_diagnostics"] true Schema.flag s.showDiagnostics
  encoding : Precedence ((last? encoding? as).map Text.Points.ofString) entries ["encoding"]
    (.ofString "utf-8") Schema.points s.encoding

theorem effective_override {entries : List (Data × Data)} {base : Settings}
    (as : List ScanArgument) (gives : Settings.Gives entries base) :
    Effective as entries (base.override (ScanArgument.options as).overrides) where
  outputFormat := precedence_getD _ gives.outputFormat
  color := precedence_getD _ gives.color
  strict := precedence_getD _ gives.strict
  showDiagnostics := precedence_getD _ gives.showDiagnostics
  encoding := precedence_getD _ gives.encoding

/-- The configuration file of a scan: the last one that the arguments name, else what the search
from the working directory finds, which may be none. -/
inductive Configuration (w : Surroundings) (as : List ScanArgument) : Option Path → Prop
  | named {text : String} (last : last? config? as = some text) :
      Configuration w as (some (Path.ofString text))
  | found {path : Option Path} (unnamed : last? config? as = none)
      (found : Settings.find w.host w.files.workingDirectory = .ok path) : Configuration w as path

/-- The entries of a configuration file, or none without one. -/
inductive Entries (files : Files) : Option Path → List (Data × Data) → Prop
  | none : Entries files none []
  | file {path : Path} {entries : List (Data × Data)} (holds : Settings.Holds files path entries) :
      Entries files (some path) entries

variable {w : Surroundings} {as : List ScanArgument}

theorem configPath_eq (w : Surroundings) (o : ScanOptions) :
    configPath w.host o =
      match o.config with
      | some p => .ok (some p)
      | none =>
        (Settings.find w.host w.files.workingDirectory).mapError
          fun (r, p) => .escaped (.refused r p) := by
  unfold configPath
  cases o.config <;> rfl

theorem configuration_of_configPath {path : Option Path}
    (found : configPath w.host (ScanArgument.options as) = .ok path) :
    Configuration w as path := by
  rw [configPath_eq] at found
  cases named : last? config? as with
  | some text =>
    simp only [ScanArgument.options, named, Option.map_some] at found
    cases found
    exact .named named
  | none =>
    simp only [ScanArgument.options, named, Option.map_none] at found
    exact .found named (Settings.of_mapError found)

theorem configPath_failed {e : Problem ConfigError}
    (failed : configPath w.host (ScanArgument.options as) = .error e) :
    ∃ r p, last? config? as = none ∧
      Settings.find w.host w.files.workingDirectory = .error (r, p) ∧
      e = .escaped (.refused r p) := by
  rw [configPath_eq] at failed
  cases named : last? config? as with
  | some text =>
    simp only [ScanArgument.options, named, Option.map_some] at failed
    cases failed
  | none =>
    simp only [ScanArgument.options, named, Option.map_none] at failed
    cases searched : Settings.find w.host w.files.workingDirectory with
    | ok path =>
      rw [searched] at failed
      cases failed
    | error refused =>
      obtain ⟨r, p⟩ := refused
      rw [searched] at failed
      cases failed
      exact ⟨r, p, rfl, rfl, rfl⟩

/-- Arguments that ask for the same file and set the same. -/
structure SameLast (as as' : List ScanArgument) : Prop where
  file : as'.filterMap file? = as.filterMap file?
  format : last? format? as' = last? format? as
  color : last? color? as' = last? color? as
  encoding : last? encoding? as' = last? encoding? as
  config : last? config? as' = last? config? as
  strict : .strict ∈ as' ↔ .strict ∈ as
  quiet : .quiet ∈ as' ↔ .quiet ∈ as

theorem SameLast.options {as' : List ScanArgument} (same : SameLast as as') :
    ScanArgument.options as' = ScanArgument.options as := by
  have file : last? file? as' = last? file? as := congrArg List.getLast? same.file
  simp only [ScanArgument.options, ScanArgument.strict?, ScanArgument.showDiagnostics?, file,
    same.format, same.color, same.encoding, same.config, same.strict, same.quiet]

theorem resolved_effective {log : List LogRecord} {s : Settings}
    (resolved : resolve w.host (ScanArgument.options as) = (log, .ok s)) :
    ∃ path entries, Configuration w as path ∧ Entries w.files path entries ∧
      Effective as entries s := by
  rw [resolve_eq] at resolved
  split at resolved
  · cases resolved
  · rename_i found
    cases resolved
    exact ⟨none, [], configuration_of_configPath found, .none,
      effective_override as Settings.gives_nil⟩
  · rename_i path found
    split at resolved
    · cases resolved
    · rename_i loaded loads
      cases resolved
      obtain ⟨entries, holds, gives⟩ := Settings.exists_holds loads
      exact ⟨some path, entries, configuration_of_configPath found, .file holds,
        effective_override as gives⟩

theorem resolve_failed {log : List LogRecord} {e : Problem ConfigError}
    (failed : resolve w.host (ScanArgument.options as) = (log, .error e)) :
    (∃ r p, last? config? as = none ∧
      Settings.find w.host w.files.workingDirectory = .error (r, p) ∧
      e = .escaped (.refused r p)) ∨
    ∃ path, Configuration w as (some path) ∧ Settings.load w.host path = .error e := by
  rw [resolve_eq] at failed
  split at failed
  · rename_i refused
    cases failed
    obtain ⟨r, p, unnamed, searched, rfl⟩ := configPath_failed refused
    exact .inl ⟨r, p, unnamed, searched, rfl⟩
  · cases failed
  · rename_i path found
    split at failed
    · rename_i unloaded
      cases failed
      exact .inr ⟨path, configuration_of_configPath found, unloaded⟩
    · cases failed

/-- How a scan comes by its settings. Its line is any list of arguments with one file among them,
each written in any of its ways. -/
theorem scan_settings {as : List ScanArgument} {ws : List String} {name : String}
    (spelled : Spelled as ws) (one : as.filterMap file? = [name]) (verbose : Bool) :
    ∃ o : ScanOptions, Request.ofArguments (scanLine verbose ws) = .scan verbose o ∧
      o.file = name ∧
      (∀ (w : Surroundings) log s, resolve w.host o = (log, .ok s) →
        ∃ path entries, Configuration w as path ∧ Entries w.files path entries ∧
          Effective as entries s) ∧
      (∀ (w : Surroundings) log e, resolve w.host o = (log, .error e) →
        (∃ r p, last? config? as = none ∧
          Settings.find w.host w.files.workingDirectory = .error (r, p) ∧
          e = .escaped (.refused r p)) ∨
        ∃ path, Configuration w as (some path) ∧ Settings.load w.host path = .error e) ∧
      ∀ as' ws' verbose', Spelled as' ws' → SameLast as as' →
        Request.ofArguments (scanLine verbose' ws') = .scan verbose' o := by
  refine ⟨ScanArgument.options as, ofArguments_spelled spelled one verbose, ?_,
    fun w log s => resolved_effective, fun w log e => resolve_failed, ?_⟩
  · change (last? file? as).getD "" = name
    rw [last?, one]
    rfl
  · intro as' ws' verbose' spelled' same
    rw [ofArguments_spelled spelled' (same.file.trans one), same.options]

/-- Of repeated arguments the last one counts, and what is not given is as usual. -/
theorem scan_settings_repeated :
    ∃ o : ScanOptions,
      Request.ofArguments ["-v", "scan", "--color", "--format=json", "a.src", "--no-color",
        "--strict", "--format", "yaml"] = .scan true o ∧
      ∃ log, resolve oneFile.host o = (log, .ok ⟨.yaml, false, true, true, .ofString "utf-8"⟩) := by
  have on : (ScanArgument.color true).form.Spells ["--color"] := .mark
  have json : (ScanArgument.format .json).form.Spells ["--format=json"] := .attached
  have file : (ScanArgument.file "a.src").form.Spells ["a.src"] := .operand (.inr (by decide))
  have off : (ScanArgument.color false).form.Spells ["--no-color"] := .mark
  have strict : ScanArgument.strict.form.Spells ["--strict"] := .mark
  have yaml : (ScanArgument.format .yaml).form.Spells ["--format", "yaml"] := .apart (by decide)
  have spelled := Spelled.cons on <| .cons json <| .cons file <| .cons off <| .cons strict <|
    .cons yaml .nil
  obtain ⟨o, request, -, succeeds, fails, -⟩ := scan_settings spelled rfl true
  have searched : Settings.find oneFile.host oneFile.files.workingDirectory = .ok none := by rfl
  refine ⟨o, request, ?_⟩
  rcases resolved : resolve oneFile.host o with ⟨log, e | s⟩
  · rcases fails oneFile log e resolved with ⟨r, p, _, refused, _⟩ | ⟨path, configuration, _⟩
    · cases refused.symm.trans searched
    · cases configuration with
      | named last => cases last
      | found _ found => cases found.symm.trans searched
  · obtain ⟨path, entries, configuration, record, effective⟩ := succeeds oneFile log s resolved
    cases configuration with
    | named last => cases last
    | found _ found =>
      cases found.symm.trans searched
      cases record
      have settings : s = ⟨.yaml, false, true, true, .ofString "utf-8"⟩ :=
        congr (congr (congr (congrArg₂ Settings.mk effective.outputFormat.eq_given
          effective.color.eq_given) effective.strict.eq_given)
          effective.showDiagnostics.eq_usual) effective.encoding.eq_usual
      exact ⟨log, by rw [settings]⟩

end ExprLexer.Command
