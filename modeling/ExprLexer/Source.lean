import ExprLexer.File.Host
import ExprLexer.Log
import ExprLexer.Problem

/-!
# Loading source text

The text of a file or of the standard input in a named encoding, with every character as it is
there. The name is text of any kind, as it may come from a configuration file: one with surrogates
or a null character ends the run. Nothing at all is the empty text under any other name.
-/

namespace ExprLexer

inductive Source.Origin where
  | file (path : Path)
  | input
  deriving DecidableEq, Repr

inductive SourceError where
  | notFound (path : Path)
  | directory (path : Path)
  | unreadable (path : Path) (r : Refusal)
  | inputUnreadable (r : Refusal)
  | unknownEncoding (name : String)
  | undecodable (origin : Source.Origin) (encoding : String) (f : Encoding.Fault)
  deriving Repr

namespace Source

def inputName : String := "-"

/-- The origin as messages about its text call it. -/
def Origin.label : Origin → String
  | file path => "'" ++ path.toString ++ "'"
  | input => "standard input"

def Origin.record (characters : Nat) : Origin → LogRecord
  | file path => .readFile characters path.toString
  | input => .readInput characters

end Source

def SourceError.message : SourceError → String
  | notFound path => "Source file not found: " ++ path.toString
  | directory path => "Source path is a directory: " ++ path.toString
  | unreadable path r => "Cannot read source file '" ++ path.toString ++ "': " ++ r.messageAt path
  | inputUnreadable r => "Cannot read standard input: " ++ r.message
  | unknownEncoding name => "Unknown encoding '" ++ name ++ "'"
  | undecodable origin encoding f =>
    "Cannot decode " ++ origin.label ++ " as " ++ encoding ++ ": " ++ f.message

namespace Source

/-- The text of bytes in the encoding of a name that has no surrogates. -/
def decode (codecs : Registry) (origin : Origin) (name : String) (bytes : List UInt8) :
    Except (Problem SourceError) Text.Points :=
  if name.toList.contains '\x00' then .error (.escaped .nullInEncoding)
  else if bytes = [] then .ok []
  else
    match codecs.codec? name with
    | none => .error (.reported (.unknownEncoding name))
    | some c =>
      match c.decode bytes with
      | .error (.fault f) => .error (.reported (.undecodable origin name f))
      | .error (.other kind message) => .error (.escaped (.codec kind message))
      | .ok t => .ok t

def ofBytes (codecs : Registry) (origin : Origin) (encoding : Text.Points) (bytes : List UInt8) :
    Except (Problem SourceError) Text.Points :=
  match encoding.toString? with
  | none => .error (.escaped (.unencodable encoding))
  | some name => decode codecs origin name bytes

def logged (origin : Origin) (text : Text.Points) : Logged Text.Points :=
  ⟨text, origin.record text.length⟩

def fileProblem (path : Path) : ReadError → Problem SourceError
  | .nullInPath => .escaped .nullInPath
  | .refused r =>
    .reported (if r = .notFound then .notFound path
      else if r = .isDirectory then .directory path else .unreadable path r)

def load [Monad m] (h : Host m) (path : Path) (encoding : Text.Points) :
    m (Except (Problem SourceError) (Logged Text.Points)) := do
  match ← h.read path with
  | .error e => return .error (fileProblem path e)
  | .ok bytes => return (ofBytes h.codecs (.file path) encoding bytes).map (logged (.file path))

def loadInput [Monad m] (h : Host m) (encoding : Text.Points) :
    m (Except (Problem SourceError) (Logged Text.Points)) := do
  match ← h.input with
  | .error r => return .error (.reported (.inputUnreadable r))
  | .ok bytes => return (ofBytes h.codecs .input encoding bytes).map (logged .input)

/-- The text that a name stands for. -/
def read [Monad m] (h : Host m) (name : String) (encoding : Text.Points) :
    m (Except (Problem SourceError) (Logged Text.Points)) :=
  if name = inputName then loadInput h encoding else load h (Path.ofString name) encoding

end Source

end ExprLexer
