/-!
# Output formats
-/

namespace ExprLexer

inductive Format where
  | text | table | yaml | json
  deriving DecidableEq, Repr

namespace Format

def all : List Format := [text, table, yaml, json]

def name : Format → String
  | text => "text"
  | table => "table"
  | yaml => "yaml"
  | json => "json"

def ofName? (s : String) : Option Format := all.find? (·.name == s)

end Format

end ExprLexer
