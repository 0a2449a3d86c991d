import ExprLexer.Text.Printable
import Mathlib.Tactic.SplitIfs

/-!
# The tables of unprintable code points

`isPrintable` looks a code point up in the table of its interval only. The ranges of each table
rise, lie apart and keep inside the interval in which the table is consulted (`laidOut_low`,
`laidOut_middle`, `laidOut_high`), so no range is out of reach: a code point is printable if and
only if no table has it (`isPrintable_iff`).
-/

namespace ExprLexer.Text

variable {low high n : Nat} {ranges : List (Nat × Nat)}

/-- Whether the ranges rise, starting at `low`, with a gap behind each, and end below `high`. -/
def laidOut (high : Nat) : Nat → List (Nat × Nat) → Bool
  | _, [] => true
  | low, r :: rest => low ≤ r.1 && r.1 ≤ r.2 && r.2 < high && laidOut high (r.2 + 2) rest

theorem laidOut_cons {r : Nat × Nat} (laid : laidOut high low (r :: ranges) = true) :
    low ≤ r.1 ∧ r.1 ≤ r.2 ∧ r.2 < high ∧ laidOut high (r.2 + 2) ranges = true := by
  simpa [laidOut, and_assoc] using laid

theorem inRanges_iff : inRanges ranges n = true ↔ ∃ r ∈ ranges, r.1 ≤ n ∧ n ≤ r.2 := by
  simp [inRanges]

theorem inRanges_append (rs ss : List (Nat × Nat)) :
    inRanges (rs ++ ss) n = (inRanges rs n || inRanges ss n) :=
  List.any_append

/-- A code point in ranges that are laid out in an interval is in the interval. -/
theorem within_of_laidOut (laid : laidOut high low ranges = true)
    (found : inRanges ranges n = true) : low ≤ n ∧ n < high := by
  induction ranges generalizing low with
  | nil => cases found
  | cons r rest ih =>
    obtain ⟨start, forward, stop, further⟩ := laidOut_cons laid
    obtain ⟨s, mem, above, below⟩ := inRanges_iff.mp found
    rcases List.mem_cons.mp mem with rfl | later
    · omega
    · have := ih further (inRanges_iff.mpr ⟨s, later, above, below⟩)
      omega

theorem inRanges_eq_false_of_laidOut (laid : laidOut high low ranges = true)
    (outside : ¬(low ≤ n ∧ n < high)) : inRanges ranges n = false :=
  Bool.eq_false_iff.mpr fun found => outside (within_of_laidOut laid found)

/-! ### The tables -/

theorem laidOut_low : laidOut 0x3000 0 unprintableLow = true := by decide +kernel

theorem laidOut_middle : laidOut 0x10000 0x3000 unprintableMiddle = true := by decide +kernel

theorem laidOut_high : laidOut 0x110000 0x10000 unprintableHigh = true := by decide +kernel

/-- Of ASCII, the first table has the controls at both ends. -/
theorem inRanges_low_ascii (ascii : n < 0x7F) : inRanges unprintableLow n = decide (n < 0x20) := by
  have rest : laidOut 0x3000 0x7F (unprintableLow.drop 1) = true := by decide +kernel
  have split : unprintableLow = [(0, 0x1F)] ++ unprintableLow.drop 1 := rfl
  rw [split, inRanges_append, inRanges_eq_false_of_laidOut rest (by omega), Bool.or_false]
  simp [inRanges, Nat.lt_succ_iff]

def unprintable : List (Nat × Nat) := unprintableLow ++ unprintableMiddle ++ unprintableHigh

theorem isPrintable_iff :
    isPrintable n = true ↔ n < 0x110000 ∧ inRanges unprintable n = false := by
  rw [unprintable, inRanges_append, inRanges_append]
  have low (h : ¬n < 0x3000) := inRanges_eq_false_of_laidOut laidOut_low (n := n) (by omega)
  have middle (h : n < 0x3000 ∨ 0x10000 ≤ n) :=
    inRanges_eq_false_of_laidOut laidOut_middle (n := n) (by omega)
  have high (h : n < 0x10000) := inRanges_eq_false_of_laidOut laidOut_high (n := n) (by omega)
  unfold isPrintable
  split_ifs with ascii first second
  · rw [inRanges_low_ascii ascii, middle (by omega), high (by omega)]
    simp
    omega
  · rw [middle (by omega), high (by omega)]
    simp
    omega
  · rw [low first, high second]
    simp
    omega
  · rw [low first, middle (by omega)]
    simp

end ExprLexer.Text
