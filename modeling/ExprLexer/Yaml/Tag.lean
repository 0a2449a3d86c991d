import ExprLexer.Text.Blank
import ExprLexer.Text.Digits
import ExprLexer.Yaml.Timestamp

/-!
# Tags

The types of scalars and collections. A plain scalar has the type whose pattern its text fits
(`Tag.ofPlain`), and is a string if it fits none. A scalar of another style can be tagged to be
taken for a plain one, and the patterns do not mind a line feed at its end.
-/

namespace ExprLexer.Yaml

inductive Tag where
  | null | bool | int | float | str | binary | timestamp
  /-- The type of the key `<<`. -/
  | merge
  /-- The type of the key `=`. -/
  | value
  | seq | map
  /-- Sequences of single entries. -/
  | omap | pairs
  | set
  /-- A type of which no value can be built. -/
  | other (name : List Char)
  deriving DecidableEq, Repr

namespace Tag

def root : List Char := "tag:yaml.org,2002:".toList

def ofName (name : List Char) : Tag :=
  let known : List (String × Tag) :=
    [("null", null), ("bool", bool), ("int", int), ("float", float), ("str", str),
      ("binary", binary), ("timestamp", timestamp), ("merge", merge), ("value", value),
      ("seq", seq), ("map", map), ("omap", omap), ("pairs", pairs), ("set", set)]
  ((known.find? fun e => root ++ e.1.toList == name).map (·.2)).getD (other name)

/-- The types that are built from nodes, and not from a text. -/
def isCollection : Tag → Bool
  | seq | map | omap | pairs | set => true
  | _ => false

/-! ### Patterns of plain scalars -/

def flags : List String :=
  ["yes", "Yes", "YES", "no", "No", "NO", "true", "True", "TRUE", "false", "False", "FALSE",
    "on", "On", "ON", "off", "Off", "OFF"]

def nulls : List String := ["~", "null", "Null", "NULL", ""]

def isOneOf (names : List String) (cs : List Char) : Bool := names.any (·.toList == cs)

def dropSign : List Char → List Char
  | '-' :: rest => rest
  | '+' :: rest => rest
  | cs => cs

def isRun (p : Char → Bool) (cs : List Char) : Bool := cs ≠ [] && cs.all p

def isDigitOrScore (c : Char) : Bool := c.isDigit || c = '_'

def isOctal (c : Char) : Bool := '0' ≤ c && c ≤ '7'

/-- Parts in base sixty behind a first part: each a colon and a number below sixty on one or two
places. -/
def dropSixties : List Char → Option (List Char)
  | [] => some []
  | c :: rest =>
    if c = ':' then
      match rest with
      | a :: b :: more =>
        if b.isDigit then (if '0' ≤ a ∧ a ≤ '5' then dropSixties more else none)
        else if a.isDigit then dropSixties (b :: more) else none
      | [a] => if a.isDigit then some [] else none
      | [] => none
    else some (c :: rest)

def isInt (cs : List Char) : Bool :=
  match dropSign cs with
  | '0' :: 'b' :: rest => isRun (fun c => c = '0' || c = '1' || c = '_') rest
  | '0' :: 'x' :: rest => isRun (fun c => Text.isHexDigit c || c = '_') rest
  | '0' :: rest => rest.all fun c => isOctal c || c = '_'
  | c :: rest =>
    c.isDigit && dropSixties (rest.dropWhile isDigitOrScore) = some []
  | [] => false

def isExponent : List Char → Bool
  | [] => true
  | e :: sign :: digits =>
    (e = 'e' || e = 'E') && (sign = '+' || sign = '-') && isRun Char.isDigit digits
  | _ => false

def isFloat (cs : List Char) : Bool :=
  let unsigned := dropSign cs
  if isOneOf [".inf", ".Inf", ".INF"] unsigned then true
  else if isOneOf [".nan", ".NaN", ".NAN"] cs then true
  else
    match cs, unsigned with
    | '.' :: c :: rest, _ => c.isDigit && isExponent (rest.dropWhile isDigitOrScore)
    | _, c :: rest =>
      c.isDigit &&
        match rest.dropWhile isDigitOrScore with
        | '.' :: fraction => isExponent (fraction.dropWhile isDigitOrScore)
        | ':' :: rest =>
          match dropSixties (':' :: rest) with
          | some ('.' :: fraction) => fraction.all isDigitOrScore
          | _ => false
        | _ => false
    | _, [] => false

/-- The type of a text by the patterns. -/
def ofPattern (cs : List Char) : Tag :=
  if isOneOf flags cs then bool
  else if isFloat cs then float
  else if isInt cs then int
  else if cs = ['<', '<'] then merge
  else if isOneOf nulls cs then null
  else if Timestamp.isPlain cs then timestamp
  else if cs = ['='] then value
  else if cs = ['!'] || cs = ['&'] || cs = ['*'] then other (root ++ "yaml".toList)
  else str

def ofPlain (cs : List Char) : Tag :=
  if cs = ['\n'] then str else ofPattern (Text.dropFeed cs)

end Tag

end ExprLexer.Yaml
