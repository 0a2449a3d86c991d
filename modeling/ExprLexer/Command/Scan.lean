import ExprLexer.Command.Outcome
import ExprLexer.Command.Request
import ExprLexer.Listing.Record
import ExprLexer.Scan.Cursor
import ExprLexer.Settings.Find
import ExprLexer.Settings.Load
import ExprLexer.Source
import ExprLexer.Text.Veil

/-!
# Scanning a source

The settings come from the configuration file and the command line, the source is read as they say,
and its tokens are listed. Diagnostics are shown as warnings and in a strict run make it fail. The
output is written in UTF-8, so a listing with a surrogate ends the run.
-/

namespace ExprLexer.Command

/-- The lines of records, which only a verbose run shows. -/
def logLines (verbose : Bool) (records : List LogRecord) : String :=
  if verbose then Listing.unlines (records.map LogRecord.message) else ""

/-! ### Settings -/

/-- The configuration file of a scan: the one asked for, or the nearest one. -/
def configPath [Monad m] (h : Host m) (o : ScanOptions) :
    m (Except (Problem ConfigError) (Option Path)) := do
  match o.config with
  | some p => return .ok (some p)
  | none =>
    let found ← Settings.find h (← h.workingDirectory)
    return found.mapError fun (r, p) => .escaped (.refused r p)

def resolve [Monad m] (h : Host m) (o : ScanOptions) :
    m (List LogRecord × Except (Problem ConfigError) Settings) := do
  match ← configPath h o with
  | .error e => return ([], .error e)
  | .ok none => return ([], .ok (Settings.override {} o.overrides))
  | .ok (some p) =>
    let config := LogRecord.usingConfig p.toString
    match ← Settings.load h p with
    | .error e => return ([config], .error e)
    | .ok loaded => return ([config, loaded.record], .ok (loaded.value.override o.overrides))

/-! ### Report -/

def strictMessage (diagnostics : Nat) : String :=
  "scan reported " ++ toString diagnostics ++ " diagnostic(s)."

/-- How a listing fails whose tokens are shown as `tokens` and `others` under the two veils. Records
hold no surrogate; the other listings do, and are not written. -/
def veiledEscape (s : Settings) (tokens others : List Token) : Escape :=
  let surrogates := (tokens.zip others).findSome? fun (t, u) =>
    if t = u then none else some (Text.unveil t.text u.text)
  match s.outputFormat with
  | .text => .unencodable (Text.unveil (Listing.text tokens) (Listing.text others))
  | .table =>
    .unencodable (Text.unveil (Listing.table s.color tokens) (Listing.table s.color others))
  | .yaml | .json =>
    .record ⟨Token.schema, [⟨some "text", .notUnicode, .text (surrogates.getD [])⟩]⟩

/-- The listing of a text that has the tokens under the first veil. Surrogates start no lexeme, so
each is a token, unless it stands in a comment and nothing shows it. -/
def listing (s : Settings) (text : Text.Points) (tokens : List Token) : Except Escape String :=
  match text.toString? with
  | some _ => Listing.render s.outputFormat s.color tokens
  | none =>
    let others := (scan (Text.veil Text.veils.2 text)).1
    if tokens = others then Listing.render s.outputFormat s.color tokens
    else .error (veiledEscape s tokens others)

def report (s : Settings) (listing : Except Escape String) (diagnostics : List Diagnostic) :
    Outcome :=
  match listing with
  | .error e => .escape e
  | .ok listing =>
    let warnings :=
      if s.showDiagnostics then Listing.unlines (diagnostics.map Diagnostic.warning) else ""
    if s.strict && !diagnostics.isEmpty then
      Outcome.after warnings
        { Outcome.failure (strictMessage diagnostics.length) with output := listing }
    else Outcome.after warnings (.success listing)

/-- What a run shows of a source that was read. -/
def reportSource (verbose : Bool) (records : List LogRecord) (s : Settings)
    (source : Logged Text.Points) : Outcome :=
  let (tokens, diagnostics) := scan (Text.veil Text.veils.1 source.value)
  Outcome.after
    (logLines verbose (records ++ [source.record, .scanned tokens.length diagnostics.length]))
    (report s (listing s source.value tokens) diagnostics)

def runScan [Monad m] (h : Host m) (verbose : Bool) (o : ScanOptions) : m Outcome := do
  match ← resolve h o with
  | (records, .error e) =>
    return Outcome.after (logLines verbose records) (.ofProblem ConfigError.message e)
  | (records, .ok s) =>
    match ← Source.read h o.file s.encoding with
    | .error e => return Outcome.after (logLines verbose records) (.ofProblem SourceError.message e)
    | .ok source => return reportSource verbose records s source

end ExprLexer.Command
