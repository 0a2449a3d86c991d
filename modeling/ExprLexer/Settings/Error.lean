import ExprLexer.File.Refusal
import ExprLexer.Schema.Issue
import ExprLexer.Yaml.Fault

/-!
# Configuration errors

Why settings cannot be taken from a file or changed.
-/

namespace ExprLexer

inductive ConfigError where
  | notFound (path : Path)
  | unreadable (path : Path) (r : Refusal)
  | malformed (path : Path)
  | notAMapping (path : Path)
  | invalid (path : Path) (failure : Schema.Failure)
  | unknownSettings (names : List String)
  deriving Repr

def ConfigError.message : ConfigError → String
  | notFound path => "Config file not found: " ++ path.toString
  | unreadable path r => "Cannot read config file '" ++ path.toString ++ "': " ++ r.messageAt path
  | malformed path =>
    "Invalid YAML in config file '" ++ path.toString ++ "': " ++ Yaml.Fault.malformed.message
  | notAMapping path => path.toString ++ ": config must be a YAML mapping"
  | invalid path failure => "Invalid config file '" ++ path.toString ++ "': " ++ failure.message
  | unknownSettings names => "Unknown setting(s): " ++ ", ".intercalate names

end ExprLexer
