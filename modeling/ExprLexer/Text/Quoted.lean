import ExprLexer.Text.Digits
import ExprLexer.Text.Points
import ExprLexer.Text.Printable

/-!
# Quoted text

Text between quotes on one printable line. The quotes are single unless the text holds a single
quote and no double one; the quote in use, the backslash and every unprintable code point are
escaped, so the quoted form determines the text.
-/

namespace ExprLexer.Text

/-- The quote that goes around `t`. -/
def delimiter (t : Points) : Char :=
  if t.contains 0x27 && !t.contains 0x22 then '"' else '\''

def quotedPoint (q : Char) (n : Nat) : List Char :=
  if n = q.toNat ∨ n = 0x5C then ['\\', Char.ofNat n]
  else if n = 0x09 then ['\\', 't']
  else if n = 0x0A then ['\\', 'n']
  else if n = 0x0D then ['\\', 'r']
  else if isPrintable n then [Char.ofNat n]
  else if n < 0x100 then '\\' :: 'x' :: hex lowerDigit 2 n
  else if n < 0x10000 then '\\' :: 'u' :: hex lowerDigit 4 n
  else '\\' :: 'U' :: hex lowerDigit 8 n

def quoted (t : Points) : List Char :=
  let q := delimiter t
  q :: (t.flatMap (quotedPoint q) ++ [q])

def quotePoints (t : Points) : String := String.ofList (quoted t)

def quote (s : String) : String := quotePoints (Points.ofString s)

end ExprLexer.Text
