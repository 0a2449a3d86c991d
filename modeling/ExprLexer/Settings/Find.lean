import ExprLexer.File.Host

/-!
# Finding the configuration file

The nearest regular file of the configuration's name, in a directory or in one of those that its
path goes through.
-/

namespace ExprLexer.Settings

def fileName : String := ".minilex.yaml"

/-- The configuration file in the first of the directories that has one, or the refusal that kept
from looking at a path. -/
def findIn [Monad m] (h : Host m) : List Path → m (Except (Refusal × Path) (Option Path))
  | [] => return .ok none
  | d :: ds => do
    let candidate := d.child fileName
    match ← h.kindAt candidate with
    | .error r => return .error (r, candidate)
    | .ok (some .file) => return .ok (some candidate)
    | .ok _ => findIn h ds

/-- The configuration file for work at `start`, which is a directory or else a place in one. -/
def find [Monad m] (h : Host m) (start : Path) : m (Except (Refusal × Path) (Option Path)) := do
  match ← h.kindAt start with
  | .error r => return .error (r, start)
  | .ok k =>
    let directory := if k = some .directory then start else start.parent
    findIn h (directory :: directory.parents)

end ExprLexer.Settings
