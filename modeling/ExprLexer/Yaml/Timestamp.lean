import ExprLexer.Data.Value
import ExprLexer.Text.Digits
import ExprLexer.Yaml.Fault

/-!
# Timestamps

A date, or a date with a time of day and perhaps an offset from universal time. Months, days and
hours have one digit or two; only a plain scalar that is a date alone has two digits for month and
day (`Timestamp.isPlain`).
-/

namespace ExprLexer.Yaml

structure TimeOfDay where
  hour : Nat
  minute : Nat
  second : Nat
  /-- The digits behind the point. -/
  fraction : List Char
  /-- How many minutes the clock is ahead of universal time. -/
  offset : Option Int

structure Timestamp where
  year : Nat
  month : Nat
  day : Nat
  time : Option TimeOfDay

namespace Timestamp

/-- The number of at least `least` and at most `most` digits at the front, and what follows it. -/
def number? (least most : Nat) (cs : List Char) : Option (Nat × List Char) :=
  let digits := (cs.take most).takeWhile Char.isDigit
  if digits.length < least then none
  else (Text.number? 10 digits).map (·, cs.drop digits.length)

def pass? (c : Char) : List Char → Option (List Char)
  | d :: rest => if c = d then some rest else none
  | [] => none

def isGap (c : Char) : Bool := c = ' ' || c = '\t'

/-- The offset that is all the rest of a timestamp. -/
def offset? (cs : List Char) : Option (Option Int) :=
  if cs = [] then some none
  else
    match cs.dropWhile isGap with
    | ['Z'] => some (some 0)
    | sign :: rest =>
      if sign = '+' ∨ sign = '-' then do
        let (hours, rest) ← number? 1 2 rest
        let (minutes, rest) ← if rest = [] then some (0, []) else pass? ':' rest >>= number? 2 2
        let ahead : Int := hours * 60 + minutes
        if rest = [] then some (some (if sign = '-' then -ahead else ahead)) else none
      else none
    | [] => none

/-- The time of day that is all the rest of a timestamp, behind the gap or the letter. -/
def time? (cs : List Char) : Option TimeOfDay := do
  let (hour, cs) ← number? 1 2 cs
  let (minute, cs) ← pass? ':' cs >>= number? 2 2
  let (second, cs) ← pass? ':' cs >>= number? 2 2
  let behind := (pass? '.' cs).getD []
  let cs := if cs.head? = some '.' then behind.dropWhile Char.isDigit else cs
  return ⟨hour, minute, second, behind.takeWhile Char.isDigit, ← offset? cs⟩

def ofChars? (cs : List Char) : Option Timestamp := do
  let (year, cs) ← number? 4 4 cs
  let (month, cs) ← pass? '-' cs >>= number? 1 2
  let (day, cs) ← pass? '-' cs >>= number? 1 2
  match cs with
  | [] => some ⟨year, month, day, none⟩
  | c :: rest =>
    if c = 'T' ∨ c = 't' then return ⟨year, month, day, ← time? rest⟩
    else if isGap c then return ⟨year, month, day, ← time? (rest.dropWhile isGap)⟩
    else none

/-- The number of characters in a date with two digits for month and day. -/
def dateLength : Nat := 10

/-- Whether a plain scalar is a timestamp. -/
def isPlain (cs : List Char) : Bool :=
  match ofChars? cs with
  | some t => t.time.isSome || cs.length = dateLength
  | none => false

/-! ### Values -/

def dateFault? (t : Timestamp) : Option Fault :=
  if t.year = 0 then some (.noYear t.year)
  else if t.month = 0 ∨ 12 < t.month then some .noMonth
  else if t.day = 0 ∨ daysIn t.year t.month < t.day then some .noDay
  else none

def timeFault? (t : TimeOfDay) : Option Fault :=
  if 23 < t.hour then some .noHour
  else if 59 < t.minute then some .noMinute
  else if 59 < t.second then some .noSecond
  else none

def offsetFault? (t : TimeOfDay) : Option Fault :=
  t.offset.bind fun minutes =>
    if minutes.natAbs < 24 * 60 then none else some (.noOffset minutes)

/-- Why there is no such time. The offset is looked at first, and the date before the time. -/
def fault? (t : Timestamp) : Option Fault :=
  (t.time.bind offsetFault?).or (t.dateFault?.or (t.time.bind timeFault?))

/-- Further digits of the fraction are dropped. -/
def microsecond (fraction : List Char) : Nat :=
  (Text.number? 10 ((fraction ++ List.replicate 6 '0').take 6)).getD 0

def data (t : Timestamp) : Data :=
  match t.time with
  | none => .date t.year t.month t.day
  | some d =>
    .moment ⟨t.year, t.month, t.day, d.hour, d.minute, d.second, microsecond d.fraction, d.offset⟩

def value (t : Timestamp) : Except Fault Data :=
  match t.fault? with
  | some f => .error f
  | none => .ok t.data

end Timestamp

end ExprLexer.Yaml
