import ExprLexer.Data.Moment
import ExprLexer.Text.Digits
import ExprLexer.Text.Quoted

/-!
# Faults of documents

Why a text gives no value. Most often it is no document (`malformed`); the other faults come from
scalars that look like a value of some type but write none.
-/

namespace ExprLexer.Yaml

inductive Fault where
  | malformed
  /-- An alias inside the node that it names, or nodes whose value depends on whether the same node
  was built before. What such a document holds is not told here. -/
  | entangled
  /-- An escape by number beyond the last code point. -/
  | noCharacter (overflow : Bool)
  | noInteger (base : Nat) (text : Text.Points)
  | noReal (text : Text.Points)
  /-- A number of which nothing is left behind the sign. -/
  | emptyNumber
  /-- A number in base sixty with so many parts that the weight of the first is beyond binary64. -/
  | heavyPart
  | noFlag (text : Text.Points)
  | noTimestamp
  /-- A timestamp that is given by a mapping. -/
  | unreadTimestamp
  | noYear (year : Nat)
  | noMonth
  | noDay
  | noHour
  | noMinute
  | noSecond
  /-- A clock that is ahead of universal time, or behind it, by a day or more. -/
  | noOffset (minutes : Int)
  /-- A decimal integer longer than is read. -/
  | tooManyDigits (digits : Nat)
  deriving DecidableEq, Repr

def maxDigits : Nat := 4300

/-- Letters beyond ASCII are shown as they stand in the document. -/
def Fault.message : Fault → String
  | malformed => "<yaml error>"
  | entangled => "<entangled nodes>"
  | noCharacter false => "chr() arg not in range(0x110000)"
  | noCharacter true => "Python int too large to convert to C int"
  | noInteger base text =>
    "invalid literal for int() with base " ++ toString base ++ ": "
      ++ String.ofList ((Text.quoted text).take 200)
  | noReal text => "could not convert string to float: " ++ Text.quotePoints text
  | emptyNumber => "string index out of range"
  | heavyPart => "int too large to convert to float"
  | noFlag text => Text.quotePoints text
  | noTimestamp => "'NoneType' object has no attribute 'groupdict'"
  | unreadTimestamp => "expected string or bytes-like object, got 'list'"
  | noYear year => "year " ++ toString year ++ " is out of range"
  | noMonth => "month must be in 1..12"
  | noDay => "day is out of range for month"
  | noHour => "hour must be in 0..23"
  | noMinute => "minute must be in 0..59"
  | noSecond => "second must be in 0..59"
  | noOffset minutes =>
    "offset must be a timedelta strictly between -timedelta(hours=24) and timedelta(hours=24), not "
      ++ Moment.durationText minutes ++ "."
  | tooManyDigits digits =>
    "Exceeds the limit (4300 digits) for integer string conversion: value has " ++ toString digits
      ++ " digits; use sys.set_int_max_str_digits() to increase the limit"

end ExprLexer.Yaml
