/-!
# UTF-16 units

A character beyond the first plane is written as a pair of surrogates. `joinPair` is the inverse of
`units` on such pairs.
-/

namespace ExprLexer.Text

/-- The UTF-16 units of a code point. -/
def units (n : Nat) : List Nat :=
  if n < 0x10000 then [n]
  else [0xD800 + (n - 0x10000) / 0x400, 0xDC00 + (n - 0x10000) % 0x400]

def isHighSurrogate (n : Nat) : Bool := 0xD800 ≤ n && n ≤ 0xDBFF

def isLowSurrogate (n : Nat) : Bool := 0xDC00 ≤ n && n ≤ 0xDFFF

theorem isHighSurrogate_iff {u : Nat} : isHighSurrogate u ↔ 0xD800 ≤ u ∧ u ≤ 0xDBFF := by
  simp [isHighSurrogate]

theorem isLowSurrogate_iff {u : Nat} : isLowSurrogate u ↔ 0xDC00 ≤ u ∧ u ≤ 0xDFFF := by
  simp [isLowSurrogate]

/-- Characters lie below the surrogates or above them. -/
theorem toNat_ranges (c : Char) :
    c.toNat < 0xD800 ∨ 0xDFFF < c.toNat ∧ c.toNat < 0x110000 := c.valid

/-- The code point that a pair of units writes. -/
def joinPair (high low : Nat) : Nat := 0x10000 + (high - 0xD800) * 0x400 + (low - 0xDC00)

theorem joinPair_units {n : Nat} (h : 0x10000 ≤ n) :
    joinPair (0xD800 + (n - 0x10000) / 0x400) (0xDC00 + (n - 0x10000) % 0x400) = n := by
  unfold joinPair
  omega

end ExprLexer.Text
