import Mathlib.Tactic.IntervalCases
import ExprLexer.Text.Digits

/-!
# Numerals read back

A number written in base sixteen on enough places, or in decimal notation, is the value of its
digits (`number?_hex`, `number?_toDigits`). So an integer is the only one with its decimal notation.
-/

namespace ExprLexer.Text

theorem readDigits?_append (base acc : Nat) (a b : List Char) :
    readDigits? base acc (a ++ b) =
      (readDigits? base acc a).bind fun n => readDigits? base n b := by
  induction a generalizing acc with
  | nil => rfl
  | cons c a ih =>
    rw [List.cons_append, readDigits?, readDigits?]
    cases digitValue? c with
    | none => rfl
    | some d =>
      dsimp only
      split
      · exact ih _
      · rfl

/-- Digits write a number that is small for their number. -/
theorem readDigits?_lt {base acc n : Nat} {cs : List Char}
    (read : readDigits? base acc cs = some n) : n < (acc + 1) * base ^ cs.length := by
  induction cs generalizing acc with
  | nil =>
    obtain rfl := Option.some.inj read
    rw [List.length_nil, Nat.pow_zero, Nat.mul_one]
    exact Nat.lt_succ_self acc
  | cons c cs ih =>
    rw [readDigits?] at read
    split at read
    · rename_i d value
      split at read
      · rename_i small
        have next : acc * base + d + 1 ≤ (acc + 1) * base := by
          rw [Nat.succ_mul]
          omega
        have whole : (acc + 1) * base ^ (c :: cs).length = (acc + 1) * base * base ^ cs.length := by
          rw [List.length_cons, Nat.pow_succ, Nat.mul_assoc, Nat.mul_comm base]
        rw [whole]
        exact Nat.lt_of_lt_of_le (ih read) (Nat.mul_le_mul_right _ next)
      · cases read
    · cases read

theorem number?_lt {base n : Nat} {cs : List Char} (read : number? base cs = some n) :
    n < base ^ cs.length := by
  unfold number? at read
  split at read
  · cases read
  · have bound := readDigits?_lt read
    rwa [Nat.zero_add, Nat.one_mul] at bound

/-! ### Base sixteen -/

theorem digitValue?_lowerDigit {d : Nat} (small : d < 16) :
    digitValue? (lowerDigit d) = some d := by
  interval_cases d <;> rfl

theorem digitValue?_upperDigit {d : Nat} (small : d < 16) :
    digitValue? (upperDigit d) = some d := by
  interval_cases d <;> rfl

variable {digit : Nat → Char}

theorem length_hex (digit : Nat → Char) (width n : Nat) : (hex digit width n).length = width := by
  induction width generalizing n with
  | zero => rfl
  | succ width ih => rw [hex, List.length_append, ih, List.length_singleton]

theorem mem_hex {width n : Nat} {c : Char} (member : c ∈ hex digit width n) :
    ∃ d < 16, c = digit d := by
  induction width generalizing n with
  | zero => cases member
  | succ width ih =>
    rw [hex, List.mem_append, List.mem_singleton] at member
    rcases member with before | rfl
    · exact ih before
    · exact ⟨n % 16, Nat.mod_lt n (by decide), rfl⟩

theorem readDigits?_hex (spells : ∀ d < 16, digitValue? (digit d) = some d) {width n : Nat}
    (fits : n < 16 ^ width) (acc : Nat) :
    readDigits? 16 acc (hex digit width n) = some (acc * 16 ^ width + n) := by
  induction width generalizing n with
  | zero =>
    obtain rfl : n = 0 := by omega
    simp [hex, readDigits?]
  | succ width ih =>
    have last : n % 16 < 16 := Nat.mod_lt n (by decide)
    have before : n / 16 < 16 ^ width := by
      rw [Nat.pow_succ] at fits
      exact Nat.div_lt_of_lt_mul (by omega)
    have parts := Nat.div_add_mod n 16
    rw [hex, readDigits?_append, ih before, Option.bind_some, readDigits?, spells _ last]
    dsimp only
    rw [if_pos last, readDigits?, Option.some.injEq, Nat.pow_succ, ← Nat.mul_assoc]
    omega

theorem number?_hex (spells : ∀ d < 16, digitValue? (digit d) = some d) {width n : Nat}
    (places : 0 < width) (fits : n < 16 ^ width) : number? 16 (hex digit width n) = some n := by
  have read := readDigits?_hex spells fits 0
  rw [Nat.zero_mul, Nat.zero_add] at read
  rw [number?]
  · exact read
  · intro nothing
    have length := length_hex digit width n
    rw [nothing, List.length_nil] at length
    omega

/-! ### Decimal notation -/

theorem digitValue?_digitChar {d : Nat} (small : d < 10) : digitValue? d.digitChar = some d := by
  interval_cases d <;> rfl

theorem readDigits?_toDigits (n acc : Nat) :
    readDigits? 10 acc (Nat.toDigits 10 n) = some (acc * 10 ^ (Nat.toDigits 10 n).length + n) := by
  induction n using Nat.strongRecOn generalizing acc with
  | ind n ih =>
    have last : ∀ d < 10, ∀ acc, readDigits? 10 acc [d.digitChar] = some (acc * 10 + d) := by
      intro d small acc
      rw [readDigits?, digitValue?_digitChar small]
      dsimp only
      rw [if_pos small, readDigits?]
    rcases Nat.lt_or_ge n 10 with single | more
    · rw [Nat.toDigits_of_lt_base single, last n single]
      rfl
    · have smaller : n / 10 < n := Nat.div_lt_self (by omega) (by decide)
      have parts := Nat.div_add_mod n 10
      rw [Nat.toDigits_of_base_le (by decide) more, readDigits?_append, ih _ smaller,
        Option.bind_some, last _ (Nat.mod_lt n (by decide)), List.length_append,
        List.length_singleton, Nat.pow_succ, ← Nat.mul_assoc, Option.some.injEq]
      omega

theorem number?_toDigits (n : Nat) : number? 10 (Nat.toDigits 10 n) = some n := by
  have read := readDigits?_toDigits n 0
  rw [Nat.zero_mul, Nat.zero_add] at read
  rw [number?]
  · exact read
  · exact Nat.toDigits_ne_nil

theorem digitValue?_of_isDigit {c : Char} (digit : c.isDigit = true) :
    digitValue? c = some (c.toNat - 0x30) ∧ c.toNat - 0x30 < 10 := by
  have range : 0x30 ≤ c.toNat ∧ c.toNat ≤ 0x39 := Char.isDigit_iff_toNat.mp digit
  have decimal : '0' ≤ c ∧ c ≤ '9' := range
  exact ⟨if_pos decimal, by omega⟩

theorem readDigits?_ofDigitChars {cs : List Char} (digits : ∀ c ∈ cs, c.isDigit = true)
    (acc : Nat) : readDigits? 10 acc cs = some (Nat.ofDigitChars 10 cs acc) := by
  induction cs generalizing acc with
  | nil => rfl
  | cons c cs ih =>
    obtain ⟨first, later⟩ := List.forall_mem_cons.mp digits
    obtain ⟨value, small⟩ := digitValue?_of_isDigit first
    rw [readDigits?, value]
    dsimp only
    rw [if_pos small, ih later, Nat.ofDigitChars_cons, Nat.mul_comm]
    rfl

theorem number?_ofDigitChars {cs : List Char} (some_ : cs ≠ [])
    (digits : ∀ c ∈ cs, c.isDigit = true) : number? 10 cs = some (Nat.ofDigitChars 10 cs 0) := by
  rw [number?.eq_def]
  split
  · exact absurd rfl some_
  · exact readDigits?_ofDigitChars digits 0

theorem toDigits_ne_zero_head {n : Nat} (positive : 0 < n) :
    ∃ c cs, Nat.toDigits 10 n = c :: cs ∧ c ≠ '0' := by
  induction n using Nat.strongRecOn with
  | ind n ih =>
    rcases Nat.lt_or_ge n 10 with single | more
    · refine ⟨_, _, Nat.toDigits_of_lt_base single, ?_⟩
      rw [ne_eq, Nat.digitChar_eq_zero]
      omega
    · obtain ⟨c, cs, spelled, other⟩ := ih (n / 10) (by omega) (by omega)
      rw [Nat.toDigits_of_base_le (by decide) more, spelled]
      exact ⟨c, _, rfl, other⟩

theorem isDigit_toDigits (n : Nat) : ∀ c ∈ Nat.toDigits 10 n, c.isDigit = true :=
  fun _ => Nat.isDigit_of_mem_toDigits (by decide) (by decide)

theorem toList_toString_natCast (n : Nat) : (toString (n : Int)).toList = Nat.toDigits 10 n := by
  rw [Int.toString_eq_repr, Int.repr_eq_if, if_pos (by omega), Nat.toList_repr,
    Int.toNat_natCast]

theorem toList_toString_negSucc (n : Nat) :
    (toString (Int.negSucc n)).toList = '-' :: Nat.toDigits 10 (n + 1) := by
  rw [Int.toString_eq_repr, Int.repr_eq_if, if_neg (by omega)]
  simp

/-- A sign or a digit. -/
theorem mem_toString_int {c : Char} {i : Int} (member : c ∈ (toString i).toList) :
    c = '-' ∨ c.isDigit = true := by
  cases i with
  | ofNat n =>
    rw [Int.ofNat_eq_natCast, toList_toString_natCast] at member
    exact .inr (isDigit_toDigits n c member)
  | negSucc n =>
    rw [toList_toString_negSucc, List.mem_cons] at member
    exact member.imp_right (isDigit_toDigits (n + 1) c)

theorem toString_int_injective : Function.Injective (toString : Int → String) := by
  have digits : ∀ {m n : Nat}, Nat.toDigits 10 m = Nat.toDigits 10 n → m = n := by
    intro m n same
    have value := number?_toDigits m
    rw [same, number?_toDigits] at value
    exact (Option.some.inj value).symm
  have signed : ∀ m n : Nat, '-' :: Nat.toDigits 10 m ≠ Nat.toDigits 10 n := by
    intro m n same
    exact absurd (isDigit_toDigits n '-' (same ▸ List.mem_cons_self)) (by decide)
  intro i j same
  have chars := congrArg String.toList same
  cases i <;> cases j <;>
    simp only [Int.ofNat_eq_natCast, toList_toString_natCast, toList_toString_negSucc] at chars
  · rw [digits chars]
  · exact absurd chars.symm (signed _ _)
  · exact absurd chars (signed _ _)
  · rw [Nat.succ.inj (digits (List.cons.inj chars).2)]

end ExprLexer.Text
