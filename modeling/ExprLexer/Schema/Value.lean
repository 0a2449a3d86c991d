import ExprLexer.Schema.Issue
import ExprLexer.Text.Blank
import ExprLexer.Text.Digits

/-!
# Lax values

Fields accept what clearly stands for a value of their type: whole numbers and decimal texts for
integers, `yes` and `no` for flags, and bytes in UTF-8 for text.
-/

namespace ExprLexer.Schema

/-- The string that text or bytes in UTF-8 hold, unless they hold none. -/
def unicode? : Data → Option (Option String)
  | .text t => some t.toString?
  | .bytes bs => some (String.fromUTF8? (ByteArray.mk bs.toArray))
  | _ => none

/-- Any text, even one with surrogates, or bytes in UTF-8. -/
def points (d : Data) : Except Cause Text.Points :=
  match d with
  | .text t => .ok t
  | _ =>
    match unicode? d with
    | none => .error .notText
    | some none => .error .notUnicode
    | some (some s) => .ok (Text.Points.ofString s)

def text (d : Data) : Except Cause String :=
  match unicode? d with
  | none => .error .notText
  | some none => .error .notUnicode
  | some (some s) => .ok s

def nonemptyText (d : Data) : Except Cause String :=
  match text d with
  | .ok s => if s.isEmpty then .error .tooShort else .ok s
  | .error c => .error c

/-- The choice of the name that the text is. Nothing is a name but text. -/
def oneOf (choices : List α) (name : α → String) (d : Data) : Except Cause α :=
  match d with
  | .text t =>
    match t.toString? with
    | none => .error .notUnicode
    | some s =>
      match choices.find? (name · == s) with
      | some a => .ok a
      | none => .error (.notOneOf (choices.map name))
  | _ => .error (.notOneOf (choices.map name))

/-! ### Integers -/

/-- What is left of a number behind zeros and underscores, the last of which is `last`. If no digit
above zero follows, the last one stays. -/
def dropZeros (last : Char) : List Char → Option (List Char)
  | [] => some [last]
  | c :: rest =>
    if c = '0' ∨ c = '_' then dropZeros c rest
    else if c.isDigit then some (c :: rest)
    else if c = '.' then some (last :: c :: rest)
    else none

/-- A number without the zeros at its front. Behind a minus sign they stay. -/
def unpadded? : List Char → Option (List Char)
  | '0' :: rest => dropZeros '0' rest
  | c :: rest => if c.isDigit || c = '-' then some (c :: rest) else none
  | [] => none

/-- A number without its plus sign and the zeros at its front. -/
def unsigned? : List Char → Option (List Char)
  | '+' :: rest => if rest.head? = some '-' then none else unpadded? rest
  | cs => unpadded? cs

/-- The text without a fraction that is all zeros. -/
def dropFraction (cs : List Char) : List Char :=
  match cs.dropWhile (· ≠ '.') with
  | _ :: c :: rest => if (c :: rest).all (· = '0') then cs.takeWhile (· ≠ '.') else cs
  | _ => cs

/-- The text without its underscores, if they are single and none stands at an end. -/
def dropScores (cs : List Char) : List Char :=
  if cs.head? = some '_' ∨ cs.getLast? = some '_' ∨ (cs.zip (cs.drop 1)).contains ('_', '_') then cs
  else cs.filter (· ≠ '_')

/-- The longest number that is read, with its minus sign. -/
def maxIntegerText : Nat := 4300

/-- Whether a minus sign stands at the front, and what follows it. -/
def takeMinus : List Char → Bool × List Char
  | '-' :: rest => (true, rest)
  | cs => (false, cs)

/-- The integer in plain decimal notation. -/
def decimal (cs : List Char) : Except Cause Int :=
  let (negative, unsigned) := takeMinus cs
  let digits := unsigned.takeWhile Char.isDigit
  let rest := unsigned.dropWhile Char.isDigit
  if digits.head? = some '0' ∧ digits ≠ ['0'] then .error .noIntegerText
  else if maxIntegerText < digits.length + negative.toNat then .error .integerTooLong
  else
    match Text.number? 10 digits, rest with
    | some n, [] => .ok (if negative then -(n : Int) else n)
    | _, _ => .error .noIntegerText

/-- The integer that a text writes: between white space a sign, digits, perhaps with underscores,
and perhaps a fraction of zeros. Only what is left without these counts for the length. -/
def integerText (cs : List Char) : Except Cause Int :=
  match unsigned? (Text.trim cs) with
  | none => .error .noIntegerText
  | some number => decimal (dropScores (dropFraction number))

/-- Integers of 64 bits are below this. -/
def wordBound : Int := 0x8000000000000000

/-- The whole number that a binary64 number is, if it lies within 64 bits. -/
def integerReal (x : Double) : Except Cause Int :=
  if !x.isFinite then .error .notFinite
  else
    match x.toInt? with
    | none => .error .fractional
    | some i => if -wordBound < i ∧ i < wordBound then .ok i else .error .integerTooLong

def integer (d : Data) : Except Cause Int :=
  match d with
  | .bool b => .ok (if b then 1 else 0)
  | .int i => .ok i
  | .real x => integerReal x
  | .text t =>
    match t.toChars? with
    | none => .error .notUnicode
    | some cs => integerText cs
  | .bytes _ =>
    match unicode? d with
    | some (some s) => integerText s.toList
    | _ => .error .noIntegerText
  | _ => .error .notInteger

def positive (d : Data) : Except Cause Int :=
  match integer d with
  | .ok i => if i < 1 then .error .belowOne else .ok i
  | .error c => .error c

/-! ### Flags -/

def trueNames : List String := ["1", "on", "t", "true", "y", "yes"]

def falseNames : List String := ["0", "off", "f", "false", "n", "no"]

def flagText (cs : List Char) : Except Cause Bool :=
  let name := cs.map Char.toLower
  if trueNames.any (·.toList == name) then .ok true
  else if falseNames.any (·.toList == name) then .ok false
  else .error .noFlagText

def flagInteger (i : Int) : Except Cause Bool :=
  if i = 0 then .ok false else if i = 1 then .ok true else .error .noFlagText

def flag (d : Data) : Except Cause Bool :=
  match d with
  | .bool b => .ok b
  | .int i => if -wordBound ≤ i ∧ i < wordBound then flagInteger i else .error .notFlag
  | .real x =>
    match integerReal x with
    | .ok i => flagInteger i
    | .error _ => .error .notFlag
  | .text t =>
    match t.toChars? with
    | none => .error .notUnicode
    | some cs => flagText cs
  | .bytes _ =>
    match unicode? d with
    | some (some s) => flagText s.toList
    | _ => .error .noFlagText
  | _ => .error .notFlag

end ExprLexer.Schema
