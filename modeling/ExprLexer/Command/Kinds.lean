import ExprLexer.Listing.Plain
import ExprLexer.Scan.Lexeme

/-!
# The list of kinds

Every kind of token, and the words and signs that the scanner sets apart.
-/

namespace ExprLexer.Command

def kindLine (k : Kind) : String :=
  "  " ++ k.name ++ (if k.isReserved then " (never produced)" else "")

def kindsListing : String :=
  Listing.unlines ("Token kinds:" :: Kind.all.map kindLine
    ++ ["Keywords: " ++ " ".intercalate Lexeme.keywords,
      "Operators: " ++ " ".intercalate (Lexeme.operators.map Char.toString),
      "Delimiters: " ++ " ".intercalate (Lexeme.delimiters.map Char.toString)])

end ExprLexer.Command
