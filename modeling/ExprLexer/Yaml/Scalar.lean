import ExprLexer.Data.Value
import ExprLexer.Text.Base64
import ExprLexer.Text.Blank
import ExprLexer.Text.Decimal
import ExprLexer.Text.Veil
import ExprLexer.Yaml.Tag
import ExprLexer.Yaml.Fault

/-!
# Values of scalars

What a scalar of each type stands for. A type may also be given by a tag, so every text can meet
every type.
-/

namespace ExprLexer.Yaml

/-- A character as numbers show it: all decimal digits count as those of ASCII, and all white space
as spaces. -/
def numeric (c : Char) : Char :=
  if c.toNat < 0x80 then c
  else if Text.isWhiteSpace c then ' '
  else (Text.decimalValue? c).elim c Text.lowerDigit

/-- The text of a number without white space around it. -/
def trimmed (cs : List Char) : List Char := Text.trim (cs.map numeric)

/-- The digits behind the mark of base 2, 8 or 16, if one stands there. -/
def dropBase (base : Nat) (cs : List Char) : List Char :=
  let mark : Option (Char × Char) :=
    match base with
    | 2 => some ('b', 'B')
    | 8 => some ('o', 'O')
    | 16 => some ('x', 'X')
    | _ => none
  match cs, mark with
  | '0' :: c :: rest, some (a, b) => if c = a ∨ c = b then rest else cs
  | _, _ => cs

def takeSign : List Char → Bool × List Char
  | '-' :: rest => (true, rest)
  | '+' :: rest => (false, rest)
  | cs => (false, cs)

/-- The integer that a text writes in a base, with a sign and between white space if need be. Too
many decimal digits are refused before anything behind them is looked at. -/
def integer (base : Nat) (cs : List Char) : Except Fault Int :=
  let (negative, unsigned) := takeSign (trimmed cs)
  let digits := unsigned.takeWhile Char.isDigit
  if base = 10 && maxDigits < digits.length then .error (.tooManyDigits digits.length)
  else
    match Text.number? base (dropBase base unsigned) with
    | none => .error (.noInteger base (Text.Points.ofChars cs))
    | some n => .ok (if negative then -(n : Int) else n)

def splitColons : List Char → List (List Char)
  | [] => [[]]
  | c :: rest =>
    if c = ':' then [] :: splitColons rest
    else
      match splitColons rest with
      | [] => [[c]]
      | part :: parts => (c :: part) :: parts

/-- The integer of a scalar: decimal, binary, octal, in base sixteen or in base sixty. -/
def intValue (cs : List Char) : Except Fault Int :=
  let cs := cs.filter (· ≠ '_')
  if cs = [] then .error .emptyNumber
  else
    let (negative, cs) := takeSign cs
    let signed : Except Fault Int :=
      match cs with
      | ['0'] => .ok 0
      | '0' :: 'b' :: rest => integer 2 rest
      | '0' :: 'x' :: rest => integer 16 rest
      | '0' :: _ => integer 8 cs
      | [] => .error .emptyNumber
      | _ =>
        if cs.contains ':' then
          (splitColons cs).foldlM (fun acc part => (integer 10 part).map (acc * 60 + ·)) 0
        else integer 10 cs
    signed.map fun i => if negative then -i else i

/-- The number that a text writes in decimal notation, or an infinity or no number by name. -/
def real (cs : List Char) : Except Fault Double :=
  let failure : Except Fault Double := .error (.noReal (Text.Points.ofChars cs))
  let (negative, text) := takeSign ((trimmed cs).map Char.toLower)
  if text = "inf".toList ∨ text = "infinity".toList then .ok (.infinite negative)
  else if text = "nan".toList then .ok .nan
  else
    let whole := text.takeWhile Char.isDigit
    let rest := text.dropWhile Char.isDigit
    let (fraction, rest) :=
      match rest with
      | '.' :: rest => (rest.takeWhile Char.isDigit, rest.dropWhile Char.isDigit)
      | rest => ([], rest)
    let exponent : Option Int :=
      match rest with
      | [] => some 0
      | 'e' :: rest =>
        let (down, digits) := takeSign rest
        if digits.all Char.isDigit then
          (Text.number? 10 digits).map fun n => if down then -(n : Int) else (n : Int)
        else none
      | _ => none
    match Text.number? 10 (whole ++ fraction), exponent with
    | some n, some e => .ok (.ofDecimal negative n (e - fraction.length))
    | _, _ => failure

/-- The sum of parts in base sixty, from the last part on, rounded at each step. -/
def sixtieths (parts : List Double) : Double :=
  (parts.foldr (fun x (acc : Double × Int) =>
    (acc.1.add (x.mul (.ofInt acc.2)), acc.2 * 60)) (.zero false, 1)).1

/-- The greatest number of parts in base sixty. The weight of a further one is beyond binary64. -/
def maxParts : Nat := 174

/-- The number of parts in base sixty, which all have to be numbers. -/
def sixty (parts : List (List Char)) : Except Fault Double := do
  let xs ← parts.mapM real
  if maxParts < xs.length then .error .heavyPart else .ok (sixtieths xs)

/-- The number of a scalar: decimal, in base sixty, infinite or none. -/
def floatValue (cs : List Char) : Except Fault Double :=
  let cs := (cs.filter (· ≠ '_')).map Char.toLower
  if cs = [] then .error .emptyNumber
  else
    let (negative, cs) := takeSign cs
    let signed : Except Fault Double :=
      if cs = ".inf".toList then .ok (.infinite false)
      else if cs = ".nan".toList then .ok .nan
      else if cs.contains ':' then sixty (splitColons cs)
      else real cs
    signed.map fun x => if negative then x.negate else x

def flagValue (cs : List Char) : Except Fault Bool :=
  let name := String.ofList (cs.map Char.toLower)
  if ["yes", "true", "on"].contains name then .ok true
  else if ["no", "false", "off"].contains name then .ok false
  else .error (.noFlag (Text.Points.ofString name))

/-- The date or the moment of a scalar. -/
def timestampValue (cs : List Char) : Except Fault Data :=
  match Timestamp.ofChars? (Text.dropFeed cs) with
  | none => .error .noTimestamp
  | some t => t.value

def scalarValue (tag : Tag) (cs : List Char) : Except Fault Data :=
  match tag with
  | .null => .ok .null
  | .bool => (flagValue cs).map .bool
  | .int => (intValue cs).map .int
  | .float => (floatValue cs).map .real
  | .str => .ok (.text (Text.Points.ofChars cs))
  | .binary =>
    match (if cs.all (·.toNat < 0x80) then Text.Base64.decode? cs else none) with
    | some bytes => .ok (.bytes bytes)
    | none => .error .malformed
  | .timestamp => timestampValue cs
  | _ => .error .malformed

/-- The fault of a text that has these faults under the two veils. -/
def Fault.unveil : Fault → Fault → Fault
  | noInteger base s, noInteger _ t => noInteger base (Text.unveilPoints s t)
  | noReal s, noReal t => noReal (Text.unveilPoints s t)
  | noFlag s, noFlag t => noFlag (Text.unveilPoints s t)
  | f, _ => f

/-- The value of a scalar that holds a surrogate. Such a text writes no value but itself. -/
def surrogateValue (tag : Tag) (text : Text.Points) : Except Fault Data :=
  let veiled (shift : Nat) := scalarValue tag (Text.veil shift text).toList
  match tag, veiled Text.veils.1, veiled Text.veils.2 with
  | .str, _, _ => .ok (.text text)
  | _, .error f, .error g => .error (f.unveil g)
  | _, r, _ => r

def valueOf (tag : Tag) (text : Text.Points) : Except Fault Data :=
  match Text.Points.toChars? text with
  | some cs => scalarValue tag cs
  | none => surrogateValue tag text

end ExprLexer.Yaml
