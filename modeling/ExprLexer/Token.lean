import ExprLexer.Position

/-!
# Tokens

A token is a classified piece of source text with the place where it starts.
-/

namespace ExprLexer

inductive Kind where
  | keyword | identifier | operator | literal | delimiter | unaryOperator | function | comment
  | unknown
  deriving DecidableEq, Repr

namespace Kind

def all : List Kind :=
  [keyword, identifier, operator, literal, delimiter, unaryOperator, function, comment, unknown]

def name : Kind → String
  | keyword => "KEYWORD"
  | identifier => "IDENTIFIER"
  | operator => "OPERATOR"
  | literal => "LITERAL"
  | delimiter => "DELIMITER"
  | unaryOperator => "UNARY_OPERATOR"
  | function => "FUNCTION"
  | comment => "COMMENT"
  | unknown => "UNKNOWN"

def ofName? (s : String) : Option Kind := all.find? (·.name == s)

/-- Kinds that exist for other tools: signs scan as operators, built-in functions as keywords, and
comments are dropped. -/
def isReserved (k : Kind) : Bool := k = unaryOperator || k = function || k = comment

end Kind

/-- A token. The place is an integer, as tokens may also be given from outside. -/
structure Token where
  kind : Kind
  text : String
  line : Int
  column : Int
  deriving DecidableEq, Repr

namespace Token

def located (kind : Kind) (text : List Char) (p : Position) : Token :=
  ⟨kind, String.ofList text, p.line, p.column⟩

end Token

end ExprLexer
