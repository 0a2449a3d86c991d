import ExprLexer.Encoding.Escaped
import ExprLexer.Proofs.Command.Access
import ExprLexer.Proofs.Listing.Record
import ExprLexer.Proofs.Source

/-!
# Outcomes of scans

What a scan prints and how it ends (`run_scan`), whatever the files, the settings and the switches.
The scanner's tokens can always be written, so no listing of a string fails. A codec may give text
with surrogates, which no listing shows: such a scan escapes (`run_scan_surrogate`).
-/

namespace ExprLexer

open Text (veil veils maxWritten)

theorem render_scan {source : String} (short : source.length < 10 ^ maxWritten) (format : Format)
    (coloured : Bool) :
    ∃ listing, Listing.render format coloured (scan source).1 = .ok listing := by
  have recordable := scan_recordable source
  have plain := fun t member => (recordable t member).isShort short
  cases format with
  | text => exact ⟨_, Listing.written_of_isShort plain _⟩
  | table => exact ⟨_, Listing.written_of_isShort plain _⟩
  | yaml => exact ⟨_, Listing.document_of_recordable recordable short _⟩
  | json => exact ⟨_, Listing.document_of_recordable recordable short _⟩

namespace Command

/-- A strict scan fails on any diagnostic. -/
def fails (s : Settings) (diagnostics : List Diagnostic) : Bool := s.strict && diagnostics ≠ []

/-- The error stream of a scan that read its source: one line for each diagnostic, where they are
shown, and one more if the scan fails. -/
def reportLines (s : Settings) (diagnostics : List Diagnostic) : String :=
  (if s.showDiagnostics then Listing.unlines (diagnostics.map Diagnostic.warning) else "") ++
    if fails s diagnostics then
      "Error: " ++ ("scan reported " ++ toString diagnostics.length ++ " diagnostic(s).") ++ "\n"
    else ""

/-- What a verbose run tells until its source is scanned. -/
def scanLog (verbose : Bool) (log : List LogRecord) (read : LogRecord)
    (scanned : List Token × List Diagnostic) : String :=
  logLines verbose (log ++ [read, .scanned scanned.1.length scanned.2.length])

/-- The end of a scan with a listing. -/
def listed (s : Settings) (told listing : String) (diagnostics : List Diagnostic) : Outcome :=
  ⟨listing, told ++ reportLines s diagnostics, .ok (if fails s diagnostics then 1 else 0)⟩

variable {verbose verbose' : Bool} {log log' : List LogRecord} {s s' : Settings} {told : String}
  {tokens : List Token} {diagnostics : List Diagnostic}

theorem report_ok (listing : String) (diagnostics : List Diagnostic) :
    Outcome.after told (report s (.ok listing) diagnostics) =
      listed s told listing diagnostics := by
  have strict : (s.strict && !diagnostics.isEmpty) = fails s diagnostics := by
    cases diagnostics <;> rfl
  unfold report listed reportLines
  dsimp only
  rw [strict]
  cases fails s diagnostics <;> rfl

/-! ### Texts under the veils -/

/-- What is scanned of a text. -/
def scanVeiled (t : Text.Points) : List Token × List Diagnostic := scan (veil veils.1 t)

theorem scanVeiled_ofString (text : String) :
    scanVeiled (Text.Points.ofString text) = scan text := by
  rw [scanVeiled, Text.veil_ofString]

variable {source source' : Logged Text.Points}

theorem reportSource_ok {listing_ : String}
    (given : listing s source.value (scanVeiled source.value).1 = .ok listing_) :
    reportSource verbose log s source =
      listed s (scanLog verbose log source.record (scanVeiled source.value)) listing_
        (scanVeiled source.value).2 := by
  have whole : reportSource verbose log s source =
      Outcome.after (scanLog verbose log source.record (scanVeiled source.value))
        (report s (listing s source.value (scanVeiled source.value).1)
          (scanVeiled source.value).2) := rfl
  rw [whole, given, report_ok]

theorem reportSource_error {e : Escape}
    (refused : listing s source.value (scanVeiled source.value).1 = .error e) :
    reportSource verbose log s source =
      ⟨"", scanLog verbose log source.record (scanVeiled source.value), .error e⟩ := by
  have whole : reportSource verbose log s source =
      Outcome.after (scanLog verbose log source.record (scanVeiled source.value))
        (report s (listing s source.value (scanVeiled source.value).1)
          (scanVeiled source.value).2) := rfl
  rw [whole, refused, report, Outcome.after, Outcome.escape, String.append_empty]

theorem listing_ofString (s : Settings) (text : String) (tokens : List Token) :
    listing s (.ofString text) tokens = Listing.render s.outputFormat s.color tokens := by
  rw [listing, Text.Points.toString?_ofString]

/-- The listing follows the format and the colours. -/
theorem listing_congr (format : s'.outputFormat = s.outputFormat) (color : s'.color = s.color)
    (t : Text.Points) : listing s' t tokens = listing s t tokens := by
  unfold listing veiledEscape
  rw [format, color]

/-- Every format lists the text. -/
def Listable (t : Text.Points) : Prop := ∀ s, ∃ l, listing s t (scanVeiled t).1 = .ok l

theorem listable_ofString {text : String} (short : text.length < 10 ^ maxWritten) :
    Listable (.ofString text) := by
  intro s
  rw [listing_ofString, scanVeiled_ofString]
  exact render_scan short _ _

theorem exists_reportSource (verbose : Bool) (log : List LogRecord) (s : Settings) {text : String}
    (short : text.length < 10 ^ maxWritten) (record : LogRecord) :
    ∃ l, Listing.render s.outputFormat s.color (scan text).1 = .ok l ∧
      reportSource verbose log s ⟨.ofString text, record⟩ =
        listed s (scanLog verbose log record (scan text)) l (scan text).2 := by
  obtain ⟨l, rendered⟩ := render_scan short s.outputFormat s.color
  refine ⟨l, rendered, ?_⟩
  rw [← scanVeiled_ofString] at rendered ⊢
  rw [← listing_ofString s text] at rendered
  exact reportSource_ok rendered

/-! ### Pairs of runs -/

/-- Of two runs the outputs agree, the statuses agree and the error streams agree, each under its
own condition. -/
structure Agree (listed strict shown : Prop) (r r' : Outcome) : Prop where
  output : listed → r'.output = r.output
  status : strict → r'.status = r.status
  errors : strict → shown → r'.errors = r.errors

theorem Agree.refl (listed strict shown : Prop) (r : Outcome) : Agree listed strict shown r r :=
  ⟨fun _ => rfl, fun _ => rfl, fun _ _ => rfl⟩

theorem listed_agree (s s' : Settings) (told told' l l' : String) :
    Agree (l' = l) (s'.strict = s.strict) (s'.showDiagnostics = s.showDiagnostics ∧ told' = told)
      (listed s told l diagnostics) (listed s' told' l' diagnostics) := by
  have equal : s'.strict = s.strict → fails s' diagnostics = fails s diagnostics := by
    intro strict
    rw [fails, fails, strict]
  refine ⟨id, fun strict => ?_, ?_⟩
  · dsimp only [listed]
    rw [equal strict]
  · rintro strict ⟨shown, rfl⟩
    dsimp only [listed]
    rw [reportLines, reportLines, shown, equal strict]

theorem reportSource_agree (source source' : Logged Text.Points) (verbose verbose' : Bool)
    (log log' : List LogRecord) (s s' : Settings) (same : source'.value = source.value) :
    Agree (s'.outputFormat = s.outputFormat ∧ s'.color = s.color)
      (s'.strict = s.strict ∧
        (s'.outputFormat = s.outputFormat ∧ s'.color = s.color ∨ Listable source.value))
      (s'.showDiagnostics = s.showDiagnostics ∧
        scanLog verbose' log' source'.record (scanVeiled source.value) =
          scanLog verbose log source.record (scanVeiled source.value))
      (reportSource verbose log s source) (reportSource verbose' log' s' source') := by
  have listings : s'.outputFormat = s.outputFormat ∧ s'.color = s.color →
      listing s' source.value (scanVeiled source.value).1 =
        listing s source.value (scanVeiled source.value).1 :=
    fun ⟨format, color⟩ => listing_congr format color source.value
  have second : ∀ l, listing s' source.value (scanVeiled source.value).1 = .ok l →
      reportSource verbose' log' s' source' = listed s'
        (scanLog verbose' log' source'.record (scanVeiled source.value)) l
        (scanVeiled source.value).2 := by
    rw [← same]
    exact fun l => reportSource_ok
  cases first : listing s source.value (scanVeiled source.value).1 with
  | ok l =>
    rw [reportSource_ok first]
    -- The second run has a listing too, under any of the three conditions.
    have both : (s'.outputFormat = s.outputFormat ∧ s'.color = s.color ∨ Listable source.value) →
        ∃ l', listing s' source.value (scanVeiled source.value).1 = .ok l' := by
      rintro (format | listable)
      · exact ⟨l, (listings format).trans first⟩
      · exact listable s'
    refine ⟨fun format => ?_, fun ⟨strict, either⟩ => ?_, fun ⟨strict, either⟩ shown => ?_⟩
    · rw [second l ((listings format).trans first)]
      rfl
    · obtain ⟨l', given⟩ := both either
      rw [second l' given]
      exact (listed_agree s s' _ _ l l').status strict
    · obtain ⟨l', given⟩ := both either
      rw [second l' given]
      exact (listed_agree s s' _ _ l l').errors strict shown
  | error e =>
    -- No text is listable in one format and not in another, so that the formats are the same.
    have format : s'.outputFormat = s.outputFormat ∧ s'.color = s.color ∨ Listable source.value →
        s'.outputFormat = s.outputFormat ∧ s'.color = s.color := by
      rintro (format | listable)
      · exact format
      · obtain ⟨l, given⟩ := listable s
        cases first.symm.trans given
    have refused : s'.outputFormat = s.outputFormat ∧ s'.color = s.color →
        reportSource verbose' log' s' source' = ⟨"", scanLog verbose' log' source'.record
          (scanVeiled source.value), .error e⟩ := by
      intro format
      rw [← same]
      refine reportSource_error ?_
      rw [same]
      exact (listings format).trans first
    rw [reportSource_error first]
    refine ⟨fun same_ => ?_, fun ⟨_, either⟩ => ?_, fun ⟨_, either⟩ ⟨_, told⟩ => ?_⟩
    · rw [refused same_]
    · rw [refused (format either)]
    · rw [refused (format either)]
      exact told

/-- Two sets of options ask for the same source. -/
structure ScanOptions.SameSource (o o' : ScanOptions) : Prop where
  config : o'.config = o.config
  file : o'.file = o.file
  encoding : o'.overrides.encoding = o.overrides.encoding

theorem resolve_eq (w : Surroundings) (o : ScanOptions) :
    resolve w.host o =
      match configPath w.host o with
      | .error e => ([], .error e)
      | .ok none => ([], .ok (Settings.override {} o.overrides))
      | .ok (some p) =>
        match Settings.load w.host p with
        | .error e => ([.usingConfig p.toString], .error e)
        | .ok loaded =>
          ([.usingConfig p.toString, loaded.record],
            .ok (loaded.value.override o.overrides)) := by
  unfold resolve
  rcases configPath w.host o with e | _ | p
  · rfl
  · rfl
  · exact match Settings.load w.host p with
    | .error e => rfl
    | .ok loaded => rfl

/-- The command line overrides the settings only after they are found. -/
theorem resolve_base (w : Surroundings) (config : Option Path) :
    ∃ (log : List LogRecord) (base : Except (Problem ConfigError) Settings),
      ∀ o : ScanOptions, o.config = config →
        resolve w.host o = (log, base.map fun s => s.override o.overrides) := by
  -- The search for the file sees nothing of the options but `config`.
  have path : ∀ o : ScanOptions, o.config = config →
      configPath w.host o = configPath w.host { config } := by
    rintro o rfl
    rfl
  rcases found : configPath w.host { config } with e | _ | p
  · refine ⟨[], .error e, fun o asked => ?_⟩
    rw [resolve_eq, path o asked, found]
    rfl
  · refine ⟨[], .ok {}, fun o asked => ?_⟩
    rw [resolve_eq, path o asked, found]
    rfl
  · rcases loads : Settings.load w.host p with e | loaded
    · refine ⟨[.usingConfig p.toString], .error e, fun o asked => ?_⟩
      rw [resolve_eq, path o asked, found]
      dsimp only
      rw [loads]
      rfl
    · refine ⟨[.usingConfig p.toString, loaded.record], .ok loaded.value, fun o asked => ?_⟩
      rw [resolve_eq, path o asked, found]
      dsimp only
      rw [loads]
      rfl

theorem runScan_eq (w : Surroundings) (verbose : Bool) (o : ScanOptions) :
    runScan w.host verbose o =
      match resolve w.host o with
      | (log, .error e) => Outcome.after (logLines verbose log) (.ofProblem ConfigError.message e)
      | (log, .ok s) =>
        match Source.read w.host o.file s.encoding with
        | .error e => Outcome.after (logLines verbose log) (.ofProblem SourceError.message e)
        | .ok source => reportSource verbose log s source := by
  unfold runScan
  rcases resolve w.host o with ⟨log, e | s⟩
  · rfl
  · dsimp only [bind, pure]
    rcases Source.read w.host o.file s.encoding with e | source
    · rfl
    · rfl

/-- If the scan reads a source, every format lists it. -/
def ReadsListable (w : Surroundings) (o : ScanOptions) : Prop :=
  ∀ log s source, resolve w.host o = (log, .ok s) →
    Source.read w.host o.file s.encoding = .ok source → Listable source.value

theorem runScan_agree (w : Surroundings) {o o' : ScanOptions} (same : o.SameSource o') :
    Agree (o'.overrides.outputFormat = o.overrides.outputFormat ∧
        o'.overrides.color = o.overrides.color)
      (o'.overrides.strict = o.overrides.strict ∧
        (o'.overrides.outputFormat = o.overrides.outputFormat ∧
          o'.overrides.color = o.overrides.color ∨ ReadsListable w o))
      (o'.overrides.showDiagnostics = o.overrides.showDiagnostics)
      (runScan w.host verbose o) (runScan w.host verbose o') := by
  obtain ⟨log, base, resolved⟩ := resolve_base w o.config
  have first := resolved o rfl
  have second := resolved o' same.config
  rw [runScan_eq, runScan_eq, first, second, same.file]
  cases base with
  | error e => exact .refl _ _ _ _
  | ok base =>
    have encoding :
        (base.override o'.overrides).encoding = (base.override o.overrides).encoding := by
      rw [Settings.override, Settings.override, same.encoding]
    dsimp only [Except.map]
    rw [encoding]
    cases source : Source.read w.host o.file (base.override o.overrides).encoding with
    | error e => exact .refl _ _ _ _
    | ok source_ =>
      have agree := reportSource_agree source_ _ verbose verbose log log
        (base.override o.overrides) (base.override o'.overrides) rfl
      have format : o'.overrides.outputFormat = o.overrides.outputFormat ∧
          o'.overrides.color = o.overrides.color →
          (base.override o'.overrides).outputFormat = (base.override o.overrides).outputFormat ∧
            (base.override o'.overrides).color = (base.override o.overrides).color :=
        And.imp (congrArg (Option.getD · base.outputFormat)) (congrArg (Option.getD · base.color))
      have strict : o'.overrides.strict = o.overrides.strict ∧
          (o'.overrides.outputFormat = o.overrides.outputFormat ∧
            o'.overrides.color = o.overrides.color ∨ ReadsListable w o) →
          (base.override o'.overrides).strict = (base.override o.overrides).strict ∧ _ :=
        And.imp (congrArg (Option.getD · base.strict))
          (Or.imp format fun listable => listable log _ source_ first source)
      exact ⟨fun formats => agree.output (format formats), fun given => agree.status (strict given),
        fun given shown => agree.errors (strict given)
          ⟨congrArg (Option.getD · base.showDiagnostics) shown, rfl⟩⟩

/-- The scan finds its settings and reads a string as its source. -/
structure Reads (w : Surroundings) (o : ScanOptions) (log : List LogRecord) (s : Settings)
    (source : Logged String) : Prop where
  resolved : resolve w.host o = (log, .ok s)
  read : Source.read w.host o.file s.encoding = .ok ⟨.ofString source.value, source.record⟩

theorem runScan_of_read {w : Surroundings} {o : ScanOptions}
    (resolved : resolve w.host o = (log, .ok s))
    (read : Source.read w.host o.file s.encoding = .ok source) :
    runScan w.host verbose o = reportSource verbose log s source := by
  rw [Command.runScan_eq, resolved]
  dsimp only
  rw [read]

/-- What a scan does. -/
structure Scans (w : Surroundings) (arguments : List String) (verbose : Bool) (o : ScanOptions) :
    Prop where
  /-- Without the switch for it, nothing is logged. -/
  quiet : verbose = false → ∀ log, logLines verbose log = ""
  /-- If its settings cannot be had, it prints the one error, ends with status one, and asks for
  nothing but what the settings need. -/
  unsettled : ∀ log e, resolve w.host o = (log, .error (.reported e)) →
    run w.host arguments = ⟨"", logLines verbose log ++ ("Error: " ++ e.message ++ "\n"), .ok 1⟩ ∧
      ∃ accesses, (∀ a ∈ accesses, ForSettings w o a) ∧
        Records (resolve w.recorded o) (resolve w.host o) accesses ∧
        Records (run w.recorded arguments) (run w.host arguments) accesses
  /-- So it goes if its source cannot be read. -/
  unread : ∀ log s e, resolve w.host o = (log, .ok s) →
    Source.read w.host o.file s.encoding = .error (.reported e) →
    run w.host arguments = ⟨"", logLines verbose log ++ ("Error: " ++ e.message ++ "\n"), .ok 1⟩
  /-- Every format lists a string, unless it is so long that its places cannot be written. -/
  renders : ∀ text : String, text.length < 10 ^ maxWritten → ∀ format coloured,
    ∃ l, Listing.render format coloured (scan text).1 = .ok l
  /-- It prints the listing of the string that it reads, and the diagnostics as the settings say. -/
  reads : ∀ log s source, Reads w o log s source → ∀ l,
    Listing.render s.outputFormat s.color (scan source.value).1 = .ok l →
      run w.host arguments =
        ⟨l, scanLog verbose log source.record (scan source.value) ++
            reportLines s (scan source.value).2,
          .ok (if fails s (scan source.value).2 then 1 else 0)⟩
  /-- A text with surrogates is no string. If no token shows them, it ends as for a string, and
  otherwise nothing is printed and the fault is not reported. -/
  surrogates : ∀ log s source, resolve w.host o = (log, .ok s) →
    Source.read w.host o.file s.encoding = .ok source → source.value.toString? = none →
    ((scanVeiled source.value).1 = (scan (veil veils.2 source.value)).1 → ∀ l,
      Listing.render s.outputFormat s.color (scanVeiled source.value).1 = .ok l →
      run w.host arguments = listed s
        (scanLog verbose log source.record (scanVeiled source.value)) l
        (scanVeiled source.value).2) ∧
    ((scanVeiled source.value).1 ≠ (scan (veil veils.2 source.value)).1 →
      run w.host arguments =
        ⟨"", scanLog verbose log source.record (scanVeiled source.value),
          .error (veiledEscape s (scanVeiled source.value).1
            (scan (veil veils.2 source.value)).1)⟩)
  /-- Runs that read the same string, wherever it stands: the format and the colours never change
  errors or status, nor strictness and the showing of diagnostics the output, nor the latter the
  status. -/
  again : ∀ log s source, Reads w o log s source → source.value.length < 10 ^ maxWritten →
    ∀ w' arguments' verbose' o' log' s' source',
      Request.ofArguments arguments' = .scan verbose' o' → Reads w' o' log' s' source' →
        source'.value = source.value →
          Agree (s'.outputFormat = s.outputFormat ∧ s'.color = s.color) (s'.strict = s.strict)
            (s'.showDiagnostics = s.showDiagnostics ∧ verbose = false ∧ verbose' = false)
            (run w.host arguments) (run w'.host arguments')
  /-- So it goes for the command line, whatever the files hold, but a format may fail to list a
  text with surrogates. -/
  switches : ∀ arguments' o', Request.ofArguments arguments' = .scan verbose o' →
    o.SameSource o' →
    Agree (o'.overrides.outputFormat = o.overrides.outputFormat ∧
        o'.overrides.color = o.overrides.color)
      (o'.overrides.strict = o.overrides.strict ∧
        (o'.overrides.outputFormat = o.overrides.outputFormat ∧
          o'.overrides.color = o.overrides.color ∨ ReadsListable w o))
      (o'.overrides.showDiagnostics = o.overrides.showDiagnostics)
      (run w.host arguments) (run w.host arguments')

theorem run_scan (w : Surroundings) {arguments : List String} {verbose : Bool} {o : ScanOptions}
    (parsed : Request.ofArguments arguments = .scan verbose o) :
    Scans w arguments verbose o := by
  have request : ∀ {m : Type → Type} [Monad m] (h : Host m) {arguments verbose o},
      Request.ofArguments arguments = .scan verbose o → run h arguments = runScan h verbose o :=
    fun h _ _ _ parsed => congrArg (Request.run h) parsed
  have whole := request w.host parsed
  refine {
    quiet := ?quiet, unsettled := ?unsettled, unread := ?unread, renders := fun _ => render_scan,
    reads := ?reads, surrogates := ?surrogates, again := ?again, switches := ?switches }
  case quiet =>
    rintro rfl log
    rfl
  case unsettled =>
    intro log e failed
    rw [whole, request w.recorded parsed]
    obtain ⟨accesses, only, settings⟩ := resolve_records (w := w) (o := o)
    refine ⟨?_, accesses, only, settings, runScan_records_error settings failed⟩
    rw [runScan_eq, failed]
    rfl
  case unread =>
    intro log s e resolved unread
    rw [whole, runScan_eq, resolved]
    dsimp only
    rw [unread]
    rfl
  case reads =>
    intro log s source reads l rendered
    have value := scanVeiled_ofString source.value
    have given : listing s (.ofString source.value) (scanVeiled (.ofString source.value)).1 =
        .ok l := by
      rw [listing_ofString, value, rendered]
    rw [whole, runScan_of_read reads.resolved reads.read]
    refine Eq.trans (reportSource_ok given) ?_
    rw [value]
    rfl
  case surrogates =>
    intro log s source resolved read none_
    rw [whole, runScan_of_read resolved read]
    have listings : listing s source.value (scanVeiled source.value).1 =
        if (scanVeiled source.value).1 = (scan (veil veils.2 source.value)).1 then
          Listing.render s.outputFormat s.color (scanVeiled source.value).1
        else .error (veiledEscape s (scanVeiled source.value).1
          (scan (veil veils.2 source.value)).1) := by
      rw [listing, none_]
    refine ⟨fun unveiled l rendered => reportSource_ok ?_, fun veiled => reportSource_error ?_⟩
    · rw [listings, if_pos unveiled, rendered]
    · rw [listings, if_neg veiled]
  case again =>
    intro log s source reads short w' arguments' verbose' o' log' s' source' parsed' reads' same
    rw [whole, request w'.host parsed', runScan_of_read reads.resolved reads.read,
      runScan_of_read reads'.resolved reads'.read]
    have agree := reportSource_agree ⟨.ofString source.value, source.record⟩
      ⟨.ofString source'.value, source'.record⟩ verbose verbose' log log' s s'
      (congrArg Text.Points.ofString same)
    have listable := listable_ofString short
    refine ⟨agree.output, fun strict => agree.status ⟨strict, .inr listable⟩, ?_⟩
    rintro strict ⟨shown, rfl, rfl⟩
    exact agree.errors ⟨strict, .inr listable⟩ ⟨shown, rfl⟩
  case switches =>
    intro arguments' o' parsed' same
    rw [whole, request w.host parsed']
    exact runScan_agree w same

def oneFile : Surroundings := ⟨⟨.directory [("a.src", .file [0x3F])], []⟩, .ok [], .empty⟩

theorem reads_oneFile :
    Reads oneFile { overrides := { strict := some true }, file := "a.src" } []
      { strict := true } ⟨"?", .readFile 1 "a.src"⟩ := by
  have named : Encoding.ofName? "utf-8" = some (.plain .utf8) := by rfl
  have decoded : Encoding.decode (.plain .utf8) [0x3F] = .ok ['?'] :=
    Encoding.decode_of_encode? (by decide)
  have text : Source.ofBytes .empty (.file (Path.ofString "a.src")) (.ofString "utf-8") [0x3F] =
      .ok (.ofString "?") := by
    rw [Source.ofBytes_ofString, Source.decode_eq _ _ (by decide) named, decoded]
    rfl
  exact ⟨by rfl, congrArg (Except.map (Source.logged (.file (Path.ofString "a.src")))) text⟩

theorem scan_questionMark :
    scan "?" = ([⟨.unknown, "?", 1, 1⟩], [⟨.unknownCharacter '?', ⟨1, 1⟩⟩]) :=
  Tiling.scan_unknown (.unknown rfl rfl (by decide) (by decide))

theorem short_questionMark : "?".length < 10 ^ maxWritten :=
  Nat.lt_of_lt_of_le (m := 10 ^ 1) (by decide) (Nat.pow_le_pow_right (by decide) (by decide))

theorem run_scan_strict :
    Request.ofArguments ["scan", "--strict", "a.src"] =
        .scan false { overrides := { strict := some true }, file := "a.src" } ∧
      ∃ l, Listing.render .text false [⟨.unknown, "?", 1, 1⟩] = .ok l ∧
        run oneFile.host ["scan", "--strict", "a.src"] =
          ⟨l, reportLines { strict := true } [⟨.unknownCharacter '?', ⟨1, 1⟩⟩], .ok 1⟩ := by
  have parsed : Request.ofArguments ["scan", "--strict", "a.src"] =
      .scan false { overrides := { strict := some true }, file := "a.src" } := by decide
  have scans := run_scan oneFile parsed
  obtain ⟨l, rendered⟩ := scans.renders "?" short_questionMark .text false
  have outcome := scans.reads _ _ _ reads_oneFile l rendered
  rw [scan_questionMark] at rendered outcome
  refine ⟨parsed, l, rendered, outcome.trans ?_⟩
  exact congrArg (Outcome.mk l · (.ok 1)) String.empty_append

/-- A file with the escape of one surrogate. -/
def surrogateFile : Surroundings :=
  ⟨⟨.directory [("a.src", .file [0x5C, 0x75, 0x64, 0x38, 0x30, 0x30])], []⟩, .ok [], .escaped⟩

theorem decode_surrogate :
    Source.ofBytes .escaped (.file (Path.ofString "a.src")) (.ofString "raw_unicode_escape")
      [0x5C, 0x75, 0x64, 0x38, 0x30, 0x30] = .ok [0xD800] := by
  have codec : Registry.codec? .escaped "raw_unicode_escape" = some Encoding.Escaped.codec := by rfl
  have decoded : Encoding.Escaped.codec.decode [0x5C, 0x75, 0x64, 0x38, 0x30, 0x30] =
      .ok [0xD800] := by
    change Encoding.Escaped.decodeFrom 0 _ = _
    rw [Encoding.Escaped.decodeFrom, if_neg (by decide), if_pos rfl]
    change (Encoding.Escaped.decodeFrom 6 []).map _ = _
    rw [Encoding.Escaped.decodeFrom]
    rfl
  rw [Source.ofBytes_ofString, Source.decode, if_neg (by decide), if_neg (by decide), codec]
  dsimp only
  rw [decoded]

/-- Where a codec gives a surrogate, no record of its token is made, and nothing reports it. -/
theorem run_scan_surrogate :
    run surrogateFile.host
        ["scan", "a.src", "--encoding", "raw_unicode_escape", "--format", "json"] =
      ⟨"", "", .error (.record ⟨Token.schema, [⟨some "text", .notUnicode, .text [0xD800]⟩]⟩)⟩ := by
  have parsed : Request.ofArguments
      ["scan", "a.src", "--encoding", "raw_unicode_escape", "--format", "json"] =
      .scan false { overrides := { outputFormat := some .json,
                                   encoding := some (.ofString "raw_unicode_escape") },
                    file := "a.src" } := by decide
  have first : scan (veil veils.1 [0xD800]) = ([⟨.unknown, veil veils.1 [0xD800], 1, 1⟩],
      [⟨.unknownCharacter (Char.ofNat 0xFD800), ⟨1, 1⟩⟩]) :=
    Tiling.scan_unknown (.unknown rfl rfl (by decide) (by decide))
  have second : scan (veil veils.2 [0xD800]) = ([⟨.unknown, veil veils.2 [0xD800], 1, 1⟩],
      [⟨.unknownCharacter (Char.ofNat 0x10D800), ⟨1, 1⟩⟩]) :=
    Tiling.scan_unknown (.unknown rfl rfl (by decide) (by decide))
  have read : Source.read surrogateFile.host "a.src" (.ofString "raw_unicode_escape") =
      .ok ⟨[0xD800], .readFile 1 "a.src"⟩ :=
    congrArg (Except.map (Source.logged (.file (Path.ofString "a.src")))) decode_surrogate
  have resolved : resolve surrogateFile.host
      { overrides := { outputFormat := some .json,
                       encoding := some (.ofString "raw_unicode_escape") }, file := "a.src" } =
      ([], .ok { outputFormat := .json, encoding := .ofString "raw_unicode_escape" }) := by rfl
  have refused : listing { outputFormat := .json, encoding := .ofString "raw_unicode_escape" }
      [0xD800] (scanVeiled [0xD800]).1 =
      .error (.record ⟨Token.schema, [⟨some "text", .notUnicode, .text [0xD800]⟩]⟩) := by
    rw [scanVeiled, first, listing, second]
    rfl
  have request : run surrogateFile.host
      ["scan", "a.src", "--encoding", "raw_unicode_escape", "--format", "json"] =
      runScan surrogateFile.host false _ := congrArg (Request.run surrogateFile.host) parsed
  rw [request, runScan_of_read resolved read, reportSource_error refused]
  rfl

end Command

end ExprLexer
