import ExprLexer.Listing.Format
import ExprLexer.Schema.Record
import ExprLexer.Schema.Value

/-!
# Settings

How a source is read and what is shown of its tokens. As a record, settings may leave any field
out; two fields have a second spelling, which counts only where the first one is missing.
-/

namespace ExprLexer

structure Settings where
  outputFormat : Format := .text
  color : Bool := false
  strict : Bool := false
  showDiagnostics : Bool := true
  encoding : Text.Points := .ofString "utf-8"
  deriving DecidableEq, Repr

namespace Settings

def schema : String := "ScanSettings"

def outputFormatNames : List String := ["output-format", "output_format"]

def colorNames : List String := ["color"]

def strictNames : List String := ["strict"]

def showDiagnosticsNames : List String := ["show-diagnostics", "show_diagnostics"]

def encodingNames : List String := ["encoding"]

/-- The spellings of each field. -/
def spellings : List (List String) :=
  [outputFormatNames, colorNames, strictNames, showDiagnosticsNames, encodingNames]

def used (entries : List (Data × Data)) : List String :=
  spellings.filterMap fun names => (Schema.find? entries names).map (·.1)

def ofEntries (entries : List (Data × Data)) : Except Schema.Failure Settings :=
  let usual : Settings := {}
  let format := Schema.optional entries outputFormatNames usual.outputFormat
    (Schema.oneOf Format.all Format.name)
  let color := Schema.optional entries colorNames usual.color Schema.flag
  let strict := Schema.optional entries strictNames usual.strict Schema.flag
  let shown := Schema.optional entries showDiagnosticsNames usual.showDiagnostics Schema.flag
  let encoding := Schema.optional entries encodingNames usual.encoding Schema.points
  let extras := Schema.extras (used entries) entries
  match format, color, strict, shown, encoding, extras with
  | .ok format, .ok color, .ok strict, .ok shown, .ok encoding, [] =>
    .ok ⟨format, color, strict, shown, encoding⟩
  | _, _, _, _, _, _ =>
    .error (Schema.failure schema (Schema.issueOf format ++ Schema.issueOf color
      ++ Schema.issueOf strict ++ Schema.issueOf shown ++ Schema.issueOf encoding ++ extras))

end Settings

end ExprLexer
