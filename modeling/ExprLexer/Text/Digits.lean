/-!
# Digits

Numbers written in base sixteen on a fixed width, and digits read back in any base up to sixteen.
-/

namespace ExprLexer.Text

/-- The digit of value `d` below sixteen, with letters in lower case. -/
def lowerDigit (d : Nat) : Char := Char.ofNat (if d < 10 then 0x30 + d else 0x57 + d)

/-- The digit of value `d` below sixteen, with letters in upper case. -/
def upperDigit (d : Nat) : Char := Char.ofNat (if d < 10 then 0x30 + d else 0x37 + d)

/-- The digits of `n` in base sixteen on `width` places. -/
def hex (digit : Nat → Char) : Nat → Nat → List Char
  | 0, _ => []
  | width + 1, n => hex digit width (n / 16) ++ [digit (n % 16)]

/-- The value of a digit in base sixteen, in either case. -/
def digitValue? (c : Char) : Option Nat :=
  if '0' ≤ c ∧ c ≤ '9' then some (c.toNat - 0x30)
  else if 'a' ≤ c ∧ c ≤ 'f' then some (c.toNat - 0x57)
  else if 'A' ≤ c ∧ c ≤ 'F' then some (c.toNat - 0x37)
  else none

def isHexDigit (c : Char) : Bool := (digitValue? c).isSome

/-- The value of a list of digits, after digits of value `acc`. -/
def readDigits? (base : Nat) (acc : Nat) : List Char → Option Nat
  | [] => some acc
  | c :: rest =>
    match digitValue? c with
    | some d => if d < base then readDigits? base (acc * base + d) rest else none
    | none => none

def number? (base : Nat) : List Char → Option Nat
  | [] => none
  | cs => readDigits? base 0 cs

/-- Integers of more decimal digits are not written. -/
def maxWritten : Nat := 4300

def isLong (i : Int) : Bool := maxWritten < (Nat.toDigits 10 i.natAbs).length

end ExprLexer.Text
