import ExprLexer.Token

/-!
# Listings for people

One descriptive line per token, or a table with aligned columns. These are the layouts; a listing is
made of tokens whose lines and columns can be written (`Listing.written`).
-/

namespace ExprLexer.Listing

def unlines (lines : List String) : String := String.join (lines.map (· ++ "\n"))

def describe (t : Token) : String :=
  "Token Type: " ++ t.kind.name ++ ", Value: " ++ t.text ++ ", Line: " ++ toString t.line
    ++ ", Column: " ++ toString t.column

def header : String := "Tokens for code in the file:"

def text (tokens : List Token) : String := unlines (header :: tokens.map describe)

/-! ### Tables -/

def place (t : Token) : String := toString t.line ++ ":" ++ toString t.column

def width (cells : List String) : Nat := cells.foldl (fun w s => max w s.length) 0

def spaces (n : Nat) : String := String.ofList (List.replicate n ' ')

def padLeft (w : Nat) (s : String) : String := spaces (w - s.length) ++ s

def padRight (w : Nat) (s : String) : String := s ++ spaces (w - s.length)

def colour : Kind → Nat
  | .keyword => 35
  | .identifier => 36
  | .operator => 33
  | .literal => 32
  | .delimiter => 34
  | .unknown => 31
  | .unaryOperator | .function | .comment => 37

def paint (colour : Nat) (s : String) : String :=
  "\x1b[" ++ toString colour ++ "m" ++ s ++ "\x1b[39m"

/-- One line of a table whose first two columns have the widths `w` and `k`. -/
def row (coloured : Bool) (w k : Nat) (t : Token) : String :=
  let kind := padRight k t.kind.name
  padLeft w (place t) ++ "  " ++ (if coloured then paint (colour t.kind) kind else kind) ++ "  "
    ++ t.text

def table (coloured : Bool) (tokens : List Token) : String :=
  let w := width (tokens.map place)
  let k := width (tokens.map (·.kind.name))
  unlines (tokens.map (row coloured w k))

end ExprLexer.Listing
