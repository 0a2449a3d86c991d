import ExprLexer.Encoding.Decode
import ExprLexer.File.Host
import ExprLexer.Log
import ExprLexer.Problem
import ExprLexer.Settings.Basic
import ExprLexer.Settings.Error
import ExprLexer.Yaml.Document

/-!
# Loading settings

Settings from a configuration file, a document in UTF-8 that holds one record. An empty document
leaves every field as it is by default.
-/

namespace ExprLexer.Settings

def ofData (path : Path) : Data → Except ConfigError Settings
  | .null => (ofEntries []).mapError (.invalid path)
  | .mapping entries => (ofEntries entries).mapError (.invalid path)
  | _ => .error (.notAMapping path)

def ofText (path : Path) (cs : List Char) : Except (Problem ConfigError) Settings :=
  match Yaml.load (Text.withLineFeeds cs) with
  | .error .malformed => .error (.reported (.malformed path))
  | .error f => .error (.escaped (.scalar f))
  | .ok d => (ofData path d).mapError .reported

def ofBytes (path : Path) (bytes : List UInt8) : Except (Problem ConfigError) Settings :=
  match Encoding.Scheme.utf8.decode 0 bytes with
  | .error f => .error (.escaped (.encoding f))
  | .ok cs => ofText path cs

/-- The settings that come of an attempt to read the file at `path`. -/
def ofRead (path : Path) : Except ReadError (List UInt8) → Except (Problem ConfigError) Settings
  | .error .nullInPath => .error (.escaped .nullInPath)
  | .error (.refused r) =>
    .error (.reported (if r = .notFound then .notFound path else .unreadable path r))
  | .ok bytes => ofBytes path bytes

def load [Monad m] (h : Host m) (path : Path) :
    m (Except (Problem ConfigError) (Logged Settings)) := do
  let content ← h.read path
  return (ofRead path content).map fun s => ⟨s, .loadedSettings path.toString⟩

end ExprLexer.Settings
