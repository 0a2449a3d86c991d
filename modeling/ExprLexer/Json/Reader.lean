import ExprLexer.Json.Value
import ExprLexer.Text.Digits
import ExprLexer.Text.Units

/-!
# Reading JSON

The grammar of RFC 8259. Escaped surrogates are read in pairs; a surrogate on its own names no
character and is refused. Each nested value is read with less fuel, and the length of the text is
fuel enough.
-/

namespace ExprLexer.Json

def isSpace (c : Char) : Bool := c = ' ' || c = '\n' || c = '\r' || c = '\t'

def skipSpace (s : List Char) : List Char := s.dropWhile isSpace

def readUnit? : List Char → Option (Nat × List Char)
  | a :: b :: c :: d :: rest => (Text.number? 16 [a, b, c, d]).map (·, rest)
  | _ => none

def shortEscape? : Char → Option Char
  | '"' => some '"'
  | '\\' => some '\\'
  | '/' => some '/'
  | 'b' => some '\x08'
  | 'f' => some '\x0c'
  | 'n' => some '\n'
  | 'r' => some '\r'
  | 't' => some '\t'
  | _ => none

/-- The character that an escape writes; the text starts behind the backslash. -/
def readEscape? : List Char → Option (Char × List Char)
  | 'u' :: rest =>
    match readUnit? rest with
    | none => none
    | some (high, rest) =>
      if Text.isHighSurrogate high then
        match rest with
        | '\\' :: 'u' :: rest =>
          match readUnit? rest with
          | some (low, rest) =>
            if Text.isLowSurrogate low then some (Char.ofNat (Text.joinPair high low), rest)
            else none
          | none => none
        | _ => none
      else if Text.isLowSurrogate high then none
      else some (Char.ofNat high, rest)
  | c :: rest => (shortEscape? c).map (·, rest)
  | [] => none

/-- The characters of a string up to its closing quote, which is passed. -/
def readString? : Nat → List Char → Option (List Char × List Char)
  | 0, _ => none
  | _ + 1, [] => none
  | fuel + 1, c :: rest =>
    if c = '"' then some ([], rest)
    else if c = '\\' then
      match readEscape? rest with
      | some (e, rest) => (readString? fuel rest).map fun (cs, after) => (e :: cs, after)
      | none => none
    else if c < ' ' then none
    else (readString? fuel rest).map fun (cs, after) => (c :: cs, after)

/-- The digits of a whole part: a zero alone, or digits that start with another one. -/
def readWhole? (s : List Char) : Option (List Char × List Char) :=
  match s with
  | '0' :: rest => some (['0'], rest)
  | c :: _ =>
    if c.isDigit then some (s.takeWhile Char.isDigit, s.dropWhile Char.isDigit) else none
  | [] => none

def readFraction? : List Char → Option (List Char × List Char)
  | '.' :: rest =>
    match rest.takeWhile Char.isDigit with
    | [] => none
    | ds => some (ds, rest.dropWhile Char.isDigit)
  | _ => none

def readExponent? : List Char → Option (Int × List Char)
  | e :: rest =>
    if e = 'e' ∨ e = 'E' then
      let (negative, rest) := match rest with
        | '-' :: rest => (true, rest)
        | '+' :: rest => (false, rest)
        | rest => (false, rest)
      (Text.number? 10 (rest.takeWhile Char.isDigit)).map fun n =>
        (if negative then -(n : Int) else n, rest.dropWhile Char.isDigit)
    else none
  | [] => none

def readNumber? (s : List Char) : Option (Json × List Char) :=
  let (negative, s) := match s with
    | '-' :: rest => (true, rest)
    | s => (false, s)
  match readWhole? s with
  | none => none
  | some (whole, s) =>
    let (fraction, s', exact) := match readFraction? s with
      | some (ds, rest) => (ds, rest, false)
      | none => ([], s, true)
    let (exponent, s'', exact) := match readExponent? s' with
      | some (x, rest) => (x, rest, false)
      | none => (0, s', exact)
    match Text.number? 10 (whole ++ fraction) with
    | none => none
    | some n =>
      if exact then some (.int (if negative then -(n : Int) else (n : Int)), s'')
      else some (.real (.ofDecimal negative n (exponent - fraction.length)), s'')

mutual

/-- The value at the front of the text, which starts with no space. -/
def readValue? : Nat → List Char → Option (Json × List Char)
  | 0, _ => none
  | fuel + 1, s =>
    match s with
    | 'n' :: 'u' :: 'l' :: 'l' :: rest => some (.null, rest)
    | 't' :: 'r' :: 'u' :: 'e' :: rest => some (.bool true, rest)
    | 'f' :: 'a' :: 'l' :: 's' :: 'e' :: rest => some (.bool false, rest)
    | '"' :: rest =>
      (readString? fuel rest).map fun (cs, rest) => (.string (String.ofList cs), rest)
    | '[' :: rest =>
      match skipSpace rest with
      | ']' :: rest => some (.array [], rest)
      | rest => (readItems? fuel rest).map fun (xs, rest) => (.array xs, rest)
    | '\x7b' :: rest =>
      match skipSpace rest with
      | '\x7d' :: rest => some (.object [], rest)
      | rest => (readMembers? fuel rest).map fun (xs, rest) => (.object xs, rest)
    | s => readNumber? s

/-- The items of an array up to its closing bracket, which is passed. -/
def readItems? : Nat → List Char → Option (List Json × List Char)
  | 0, _ => none
  | fuel + 1, s =>
    match readValue? fuel s with
    | none => none
    | some (x, rest) =>
      match skipSpace rest with
      | ',' :: rest => (readItems? fuel (skipSpace rest)).map fun (xs, rest) => (x :: xs, rest)
      | ']' :: rest => some ([x], rest)
      | _ => none

/-- The members of an object up to its closing bracket, which is passed. -/
def readMembers? : Nat → List Char → Option (List (String × Json) × List Char)
  | fuel + 1, '"' :: rest =>
    match readString? fuel rest with
    | none => none
    | some (name, rest) =>
      match skipSpace rest with
      | ':' :: rest =>
        match readValue? fuel (skipSpace rest) with
        | none => none
        | some (x, rest) =>
          match skipSpace rest with
          | ',' :: rest =>
            (readMembers? fuel (skipSpace rest)).map fun (xs, rest) =>
              ((String.ofList name, x) :: xs, rest)
          | '\x7d' :: rest => some ([(String.ofList name, x)], rest)
          | _ => none
      | _ => none
  | _, _ => none

end

def parse? (text : List Char) : Option Json :=
  match readValue? (text.length + 1) (skipSpace text) with
  | some (x, rest) => if skipSpace rest = [] then some x else none
  | none => none

end ExprLexer.Json
