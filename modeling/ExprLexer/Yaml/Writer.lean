import ExprLexer.Text.Digits
import ExprLexer.Yaml.Input
import ExprLexer.Yaml.Tag

/-!
# Writing scalars

A text is written plain where it reads back as the same string; otherwise between single quotes if
it is printable ASCII, and between double quotes with escapes if it is not.
-/

namespace ExprLexer.Yaml

def stands (rest : List Char) : Bool := rest.isEmpty || rest.head? = some ' '

/-- Whether a colon that stands alone or a comment begins inside the text; `previous` is the
character before. -/
def breaksPlain (previous : Char) : List Char → Bool
  | [] => false
  | c :: rest =>
    (c = ':' && stands rest) || (c = '#' && previous = ' ') || breaksPlain c rest

/-- Whether a scalar that starts with `c` would start some other token. -/
def startsToken (c : Char) (rest : List Char) : Bool :=
  "#,[]\x7b\x7d&*!|>'\"%@`".toList.contains c
    || ((c = '?' || c = ':' || c = '-') && stands rest)

/-- Whether a text of printable ASCII can be written without quotes. -/
def canBePlain (cs : List Char) : Bool :=
  match cs with
  | [] => false
  | c :: rest =>
    Tag.ofPlain cs = .str && !startsToken c rest && !breaksPlain 'x' cs
      && c ≠ ' ' && cs.getLast? ≠ some ' '
      && cs.take 3 ≠ ['-', '-', '-'] && cs.take 3 ≠ ['.', '.', '.']

def escapeDouble (c : Char) : List Char :=
  let n := c.toNat
  if c = '"' ∨ c = '\\' then ['\\', c]
  else if 0x20 ≤ n ∧ n ≤ 0x7E then [c]
  else if n = 0x00 then ['\\', '0']
  else if n = 0x07 then ['\\', 'a']
  else if n = 0x08 then ['\\', 'b']
  else if n = 0x09 then ['\\', 't']
  else if n = 0x0A then ['\\', 'n']
  else if n = 0x0B then ['\\', 'v']
  else if n = 0x0C then ['\\', 'f']
  else if n = 0x0D then ['\\', 'r']
  else if n = 0x1B then ['\\', 'e']
  else if n = 0x85 then ['\\', 'N']
  else if n = 0xA0 then ['\\', '_']
  else if n = 0x2028 then ['\\', 'L']
  else if n = 0x2029 then ['\\', 'P']
  else if n ≤ 0xFF then '\\' :: 'x' :: Text.hex Text.upperDigit 2 n
  else if n ≤ 0xFFFF then '\\' :: 'u' :: Text.hex Text.upperDigit 4 n
  else '\\' :: 'U' :: Text.hex Text.upperDigit 8 n

def escapeSingle (c : Char) : List Char := if c = '\'' then ['\'', '\''] else [c]

def writeScalar (cs : List Char) : List Char :=
  if cs.any fun c => !(' ' ≤ c && c ≤ '~') then '"' :: (cs.flatMap escapeDouble ++ ['"'])
  else if canBePlain cs then cs
  else '\'' :: (cs.flatMap escapeSingle ++ ['\''])

end ExprLexer.Yaml
