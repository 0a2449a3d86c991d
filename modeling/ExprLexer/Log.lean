/-!
# Log records

What the program tells about its work when asked to be verbose, one line each.
-/

namespace ExprLexer

inductive LogRecord where
  | scanned (tokens diagnostics : Nat)
  | loadedSettings (path : String)
  | readFile (characters : Nat) (path : String)
  | readInput (characters : Nat)
  | usingConfig (path : String)
  deriving DecidableEq, Repr

namespace LogRecord

def channel : LogRecord → String
  | scanned .. => "minilex.scanner.lexer"
  | loadedSettings _ => "minilex.config.settings"
  | readFile .. | readInput _ => "minilex.source.loader"
  | usingConfig _ => "minilex.cli.main"

def text : LogRecord → String
  | scanned tokens diagnostics =>
    "Scanned " ++ toString tokens ++ " token(s) with " ++ toString diagnostics ++ " diagnostic(s)"
  | loadedSettings path => "Loaded settings from " ++ path
  | readFile characters path => "Read " ++ toString characters ++ " character(s) from " ++ path
  | readInput characters => "Read " ++ toString characters ++ " character(s) from standard input"
  | usingConfig path => "Using config file " ++ path

def message (r : LogRecord) : String := "DEBUG " ++ r.channel ++ ": " ++ r.text

end LogRecord

/-- The result of a task that ran to its end, and the record that tells so. -/
structure Logged (α : Type) where
  value : α
  record : LogRecord
  deriving Repr

end ExprLexer
