/-!
# Pieces of text

Text cut at a separator, and lines whatever characters end them.
-/

namespace ExprLexer.Text

/-- The pieces of a text before, between and behind the separators. -/
def pieces (separator : Char) : List Char → List (List Char)
  | [] => [[]]
  | c :: rest =>
    if c = separator then [] :: pieces separator rest
    else
      match pieces separator rest with
      | p :: ps => (c :: p) :: ps
      | [] => [[c]]

/-- The text with a line feed for each carriage return and for each carriage return with a line
feed. -/
def withLineFeeds : List Char → List Char
  | [] => []
  | '\r' :: '\n' :: rest => '\n' :: withLineFeeds rest
  | '\r' :: rest => '\n' :: withLineFeeds rest
  | c :: rest => c :: withLineFeeds rest

end ExprLexer.Text
