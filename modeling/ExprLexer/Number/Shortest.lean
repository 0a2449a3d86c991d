import ExprLexer.Number.Double

/-!
# Shortest decimals

The decimal of fewest digits that reads back as a given number, and of several of that length the
nearest one. For each length the two neighbours of the number on the decimal grid are tested
against the interval of reals that round to it.
-/

namespace ExprLexer.Double

/-- The greatest `k` with `10 ^ k ≤ num / den`, searched for upwards from `k`. -/
def floorLog (num den : Nat) (k : Int) : Nat → Int
  | 0 => k
  | fuel + 1 =>
    let (n, d) := if 0 ≤ k + 1 then (num, den * Nat.pow 10 (k + 1).toNat)
      else (num * Nat.pow 10 (-(k + 1)).toNat, den)
    if d ≤ n then floorLog num den (k + 1) fuel else k

/-- A decimal `digits * 10 ^ exponent`. -/
structure Decimal where
  digits : Nat
  exponent : Int
  deriving DecidableEq, Repr

/-- The decimals with `places` digits next to `num / den`, where `10 ^ k ≤ num / den`. -/
def neighbours (num den : Nat) (k : Int) (places : Nat) : Decimal × Decimal :=
  let e := k + 1 - places
  let n :=
    if 0 ≤ e then num / (den * Nat.pow 10 e.toNat) else num * Nat.pow 10 (-e).toNat / den
  (⟨n, e⟩, ⟨n + 1, e⟩)

def Decimal.ratio (d : Decimal) : Nat × Nat :=
  if 0 ≤ d.exponent then (d.digits * Nat.pow 10 d.exponent.toNat, 1)
  else (d.digits, Nat.pow 10 (-d.exponent).toNat)

/-- The distance of two ratios, over the product of their denominators. -/
def distance (a b : Nat × Nat) : Nat :=
  let x := a.1 * b.2
  let y := b.1 * a.2
  if x ≤ y then y - x else x - y

/-- The decimal of `places` digits that reads back as the number `m * 2 ^ e`, if there is one. -/
def hit? (m : Nat) (e k : Int) (num den : Nat) (places : Nat) : Option Decimal :=
  let (low, high) := neighbours num den k places
  let reads (d : Decimal) : Bool :=
    let (n, r) := d.ratio
    ofRatio false n r == finite false m e
  match reads low, reads high with
  | true, false => some low
  | false, true => some high
  | false, false => none
  | true, true =>
    let a := distance low.ratio (num, den)
    let b := distance high.ratio (num, den)
    let a := a * high.ratio.2
    let b := b * low.ratio.2
    some (if a < b ∨ (a = b ∧ low.digits % 2 = 0) then low else high)

/-- The first hit among the lengths from `places` on. -/
def firstHit (m : Nat) (e k : Int) (num den : Nat) (places : Nat) : Nat → Decimal
  | 0 => (neighbours num den k places).1
  | fuel + 1 =>
    match hit? m e k num den places with
    | some d => d
    | none => firstHit m e k num den (places + 1) fuel

def shortest (m : Nat) (e : Int) : Decimal :=
  let (num, den) := scale m 1 (-e)
  let k := floorLog num den ((((num.log2 : Int) - den.log2) * 3 / 10) - 30) 60
  firstHit m e k num den 1 17

/-- The number as text: positional from `1e-4` up to below `1e16`, otherwise with an exponent of at
least two digits. -/
def display : Double → String
  | nan => "nan"
  | infinite s => (if s then "-" else "") ++ "inf"
  | finite s m e =>
    (if s then "-" else "") ++
      if m = 0 then "0.0"
      else
        let d := shortest m e
        let written := Nat.toDigits 10 d.digits
        let digits := (written.reverse.dropWhile (· = '0')).reverse
        let point : Int := d.exponent + written.length
        if -4 < point ∧ point ≤ 16 then
          if point ≤ 0 then
            "0." ++ String.ofList (List.replicate (-point).toNat '0' ++ digits)
          else
            let whole := digits.take point.toNat
            let rest := digits.drop point.toNat
            String.ofList (whole ++ List.replicate (point.toNat - whole.length) '0' ++
              '.' :: (if rest = [] then ['0'] else rest))
        else
          let x := point - 1
          let power := Nat.toDigits 10 x.natAbs
          String.ofList ((digits.take 1 ++ if digits.length = 1 then [] else '.' :: digits.drop 1)
            ++ 'e' :: (if x < 0 then '-' else '+')
            :: (if power.length = 1 then '0' :: power else power))

end ExprLexer.Double
