/-!
# Binary64 numbers

The numbers of the binary64 format as exact data: a sign, a whole significand and a power of two.
Ratios, decimals, sums and products are computed exactly and rounded once, to the nearest number
and to the even one of two.
-/

namespace ExprLexer

/-- A number of the format. In `finite` the significand is below `2 ^ 53` and the exponent at least
`-1074`; it is the least exponent that allows this. -/
inductive Double where
  | finite (negative : Bool) (significand : Nat) (exponent : Int)
  | infinite (negative : Bool)
  | nan
  deriving DecidableEq, Repr

namespace Double

/-- Significands are below this. -/
def bound : Nat := 0x20000000000000

def minExponent : Int := -1074

def maxExponent : Int := 971

def zero (negative : Bool) : Double := finite negative 0 minExponent

/-- The ratio `num / den` divided by `2 ^ e`, again as a ratio. -/
def scale (num den : Nat) (e : Int) : Nat × Nat :=
  if 0 ≤ e then (num, den * Nat.pow 2 e.toNat) else (num * Nat.pow 2 (-e).toNat, den)

/-- The whole number nearest to `num / den`, the even one of two. -/
def roundEven (num den : Nat) : Nat :=
  let q := num / den
  let twice := 2 * (num % den)
  if twice < den ∨ (twice = den ∧ q % 2 = 0) then q else q + 1

def ofRatio (negative : Bool) (num den : Nat) : Double :=
  if num = 0 then zero negative
  else
    let estimate : Int := (num.log2 : Int) - den.log2 - 53
    let (n, d) := scale num den estimate
    let e := max minExponent (if n / d < bound then estimate else estimate + 1)
    let (n, d) := scale num den e
    let m := roundEven n d
    let (m, e) := if m = bound then (bound / 2, e + 1) else (m, e)
    if e ≤ maxExponent then finite negative m e else infinite negative

/-- The number nearest to `digits * 10 ^ exponent`. Exponents far out of range are decided by the
number of digits. -/
def ofDecimal (negative : Bool) (digits : Nat) (exponent : Int) : Double :=
  let magnitude : Int := (Nat.toDigits 10 digits).length + exponent
  if digits = 0 ∨ magnitude < -400 then zero negative
  else if 400 < magnitude then infinite negative
  else if 0 ≤ exponent then ofRatio negative (digits * Nat.pow 10 exponent.toNat) 1
  else ofRatio negative digits (Nat.pow 10 (-exponent).toNat)

def ofInt (i : Int) : Double := ofRatio (i < 0) i.natAbs 1

def negate : Double → Double
  | finite s m e => finite (!s) m e
  | infinite s => infinite (!s)
  | nan => nan

def ofScaled (i : Int) (e : Int) (negativeZero : Bool) : Double :=
  if i = 0 then zero negativeZero
  else
    let (n, d) := scale i.natAbs 1 (-e)
    ofRatio (i < 0) n d

/-- The significand with its sign, in units of `2 ^ low`. -/
def units (negative : Bool) (m : Nat) (e low : Int) : Int :=
  let n : Int := (m * Nat.pow 2 (e - low).toNat : Nat)
  if negative then -n else n

def add : Double → Double → Double
  | finite s m e, finite s' m' e' =>
    let low := min e e'
    ofScaled (units s m e low + units s' m' e' low) low (s && s')
  | infinite s, infinite s' => if s = s' then infinite s else nan
  | infinite s, finite .. => infinite s
  | finite .., infinite s => infinite s
  | nan, _ | _, nan => nan

def mul : Double → Double → Double
  | finite s m e, finite s' m' e' =>
    ofScaled (if s = s' then (m * m' : Nat) else -(m * m' : Nat)) (e + e') (s != s')
  | infinite s, finite s' m _ => if m = 0 then nan else infinite (s != s')
  | finite s m _, infinite s' => if m = 0 then nan else infinite (s != s')
  | infinite s, infinite s' => infinite (s != s')
  | nan, _ | _, nan => nan

/-- The number as an integer, if it is a whole one. -/
def toInt? : Double → Option Int
  | finite s m e =>
    if 0 ≤ e then some (units s m e 0)
    else
      let d := Nat.pow 2 (-e).toNat
      if m % d = 0 then some (units s (m / d) 0 0) else none
  | _ => none

def isFinite : Double → Bool
  | finite .. => true
  | _ => false

/-- Equality of values: zeros of either sign are equal, and `nan` equals nothing. -/
def same : Double → Double → Bool
  | finite s m e, finite s' m' e' => m = m' && e = e' && (s = s' || m = 0)
  | infinite s, infinite s' => s = s'
  | _, _ => false

end Double

end ExprLexer
