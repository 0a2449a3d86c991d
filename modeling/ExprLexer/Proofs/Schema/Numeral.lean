import Mathlib.Data.List.TakeWhile
import Mathlib.Data.List.Induction
import ExprLexer.Proofs.Scan.Gap
import ExprLexer.Proofs.Text.Digits
import ExprLexer.Proofs.Yaml.Plain
import ExprLexer.Schema.Value

/-!
# Texts that write integers

A text is read as an integer when it writes one (`integerText_eq_ok_iff`): between white space, with
a sign, with single underscores between the digits and with a fraction of zeros. In front of the
digits there may be zeros, with any underscores among them, unless the sign is a minus.
-/

namespace ExprLexer.Schema

open Text Yaml

variable {c : Char} {cs ds t rest fraction whole zeros : List Char} {i : Int}

/-! ### Digits with underscores -/

/-- A text of digits, perhaps with single underscores between them, and the digits alone. -/
inductive Grouped : List Char → List Char → Prop
  | last {c : Char} (digit : c.isDigit = true) : Grouped [c] [c]
  | next {c : Char} {cs ds : List Char} (digit : c.isDigit = true) (rest : Grouped cs ds) :
      Grouped (c :: cs) (c :: ds)
  | spaced {c : Char} {cs ds : List Char} (digit : c.isDigit = true) (rest : Grouped cs ds) :
      Grouped (c :: '_' :: cs) (c :: ds)

/-- Two underscores stand next to each other. -/
def twoScores (cs : List Char) : Bool := (cs.zip (cs.drop 1)).contains ('_', '_')

theorem twoScores_cons (c d : Char) (rest : List Char) :
    twoScores (c :: d :: rest) = (('_', '_') == (c, d) || twoScores (d :: rest)) := rfl

theorem filter_cons_digit (digit : c.isDigit = true) :
    (c :: cs).filter (· ≠ '_') = c :: cs.filter (· ≠ '_') :=
  List.filter_cons_of_pos (decide_eq_true (ne_of_isDigit digit '_' rfl))

theorem ne_score (digit : c.isDigit = true) : '_' ≠ c := (ne_of_isDigit digit '_' rfl).symm

namespace Grouped

theorem isDigit (grouped : Grouped cs ds) : ∀ c ∈ ds, c.isDigit = true := by
  induction grouped with
  | last digit => exact List.forall_mem_singleton.mpr digit
  | next digit rest ih => exact List.forall_mem_cons.mpr ⟨digit, ih⟩
  | spaced digit rest ih => exact List.forall_mem_cons.mpr ⟨digit, ih⟩

theorem ne_nil (grouped : Grouped cs ds) : ds ≠ [] := by
  cases grouped <;> exact List.cons_ne_nil _ _

/-- The first digit is the first character. -/
theorem exists_cons (grouped : Grouped cs ds) :
    ∃ c rest, cs = c :: rest ∧ ds.head? = some c ∧ c.isDigit = true := by
  cases grouped with
  | last digit => exact ⟨_, _, rfl, rfl, digit⟩
  | next digit rest => exact ⟨_, _, rfl, rfl, digit⟩
  | spaced digit rest => exact ⟨_, _, rfl, rfl, digit⟩

theorem exists_getLast? (grouped : Grouped cs ds) :
    ∃ c, cs.getLast? = some c ∧ c.isDigit = true := by
  induction grouped with
  | last digit => exact ⟨_, rfl, digit⟩
  | next digit rest ih =>
    obtain ⟨c, last, digit_⟩ := ih
    exact ⟨c, by rw [List.getLast?_cons, last]; rfl, digit_⟩
  | spaced digit rest ih =>
    obtain ⟨c, last, digit_⟩ := ih
    exact ⟨c, by rw [List.getLast?_cons, List.getLast?_cons, last]; rfl, digit_⟩

theorem filter_ne_score (grouped : Grouped cs ds) : cs.filter (· ≠ '_') = ds := by
  induction grouped with
  | last digit => exact filter_cons_digit digit
  | next digit rest ih => rw [filter_cons_digit digit, ih]
  | spaced digit rest ih => rw [filter_cons_digit digit, ← ih]; rfl

theorem ne_point (grouped : Grouped cs ds) : ∀ c ∈ cs, decide (c ≠ '.') = true := by
  have other : ∀ c : Char, c.isDigit = true → decide (c ≠ '.') = true := fun c digit =>
    decide_eq_true (ne_of_isDigit digit '.' rfl)
  induction grouped with
  | last digit => exact List.forall_mem_singleton.mpr (other _ digit)
  | next digit rest ih => exact List.forall_mem_cons.mpr ⟨other _ digit, ih⟩
  | spaced digit rest ih =>
    exact List.forall_mem_cons.mpr ⟨other _ digit, List.forall_mem_cons.mpr ⟨by decide, ih⟩⟩

theorem not_twoScores (grouped : Grouped cs ds) : twoScores cs = false := by
  induction grouped with
  | last digit => rfl
  | next digit rest ih =>
    obtain ⟨d, more, rfl, -, first⟩ := rest.exists_cons
    rw [twoScores_cons, ih, Bool.or_false]
    simp [ne_score digit]
  | spaced digit rest ih =>
    obtain ⟨d, more, rfl, -, first⟩ := rest.exists_cons
    rw [twoScores_cons, twoScores_cons, ih, Bool.or_false]
    simp [ne_score digit, ne_score first]

end Grouped

/-- Digits and underscores, of which the first is a digit, the last no underscore and no two next to
each other are underscores. -/
theorem grouped_filter (first : cs.head?.any Char.isDigit = true) (last : cs.getLast? ≠ some '_')
    (single : twoScores cs = false) (chars : ∀ c ∈ cs, c = '_' ∨ c.isDigit = true) :
    Grouped cs (cs.filter (· ≠ '_')) := by
  -- Two characters at once, where an underscore stands between digits.
  induction cs using List.twoStepInduction with
  | nil => cases first
  | singleton c =>
    have digit : c.isDigit = true := first
    rw [filter_cons_digit digit]
    exact .last digit
  | cons_cons c d rest ih ihd =>
    have digit : c.isDigit = true := first
    rw [List.getLast?_cons_cons] at last
    rw [twoScores_cons, Bool.or_eq_false_iff] at single
    rw [List.forall_mem_cons] at chars
    rw [filter_cons_digit digit]
    rcases (List.forall_mem_cons.mp chars.2).1 with rfl | next
    · show Grouped _ (c :: rest.filter (· ≠ '_'))
      cases rest with
      | nil => exact absurd rfl last
      | cons e rest =>
        rw [List.getLast?_cons_cons] at last
        rw [twoScores_cons, Bool.or_eq_false_iff] at single
        have behind : e.isDigit = true := by
          rcases (List.forall_mem_cons.mp (List.forall_mem_cons.mp chars.2).2).1 with rfl | behind
          · cases single.2.1
          · exact behind
        exact .spaced digit (ih behind last single.2.2 (List.forall_mem_cons.mp chars.2).2)
    · exact .next digit (ihd d next last single.2 chars.2)

/-! ### Numbers -/

/-- Zeros and underscores in front of a number, if any, of which the first is a zero. -/
def Padding (zeros : List Char) : Prop :=
  zeros = [] ∨ ∃ more, zeros = '0' :: more ∧ ∀ c ∈ more, c = '0' ∨ c = '_'

/-- What may follow the digits of an integer. -/
def Zeros (fraction : List Char) : Prop :=
  fraction = [] ∨ ∃ k, fraction = '.' :: List.replicate (k + 1) '0'

def White (cs : List Char) : Prop := ∀ c ∈ cs, isWhiteSpace c = true

/-- A sign with a number behind it, whether the sign is a minus, and the digits that count. -/
inductive Signed : List Char → Bool → List Char → Prop
  /-- Zeros in front of other digits, and underscores among them, do not count. -/
  | padded {sign zeros whole ds : List Char} (plus : sign = [] ∨ sign = ['+'])
      (padding : Padding zeros) (grouped : Grouped whole ds) (first : ds.head? ≠ some '0') :
      Signed (sign ++ (zeros ++ whole)) false ds
  /-- Of zeros alone the last one counts. -/
  | zero {sign zeros : List Char} (plus : sign = [] ∨ sign = ['+']) (padding : Padding zeros) :
      Signed (sign ++ (zeros ++ ['0'])) false ['0']
  /-- Behind a minus sign an underscore may stand, but no zero in front of other digits. -/
  | negative {score whole ds : List Char} (scored : score = [] ∨ score = ['_'])
      (grouped : Grouped whole ds) (first : 1 < ds.length → ds.head? ≠ some '0') :
      Signed ('-' :: (score ++ whole)) true ds

/-- A text that writes an integer, and which one. -/
inductive Numeral : List Char → Int → Prop
  | intro {front number ds fraction back : List Char} {negative : Bool}
      (before : White front) (signed : Signed number negative ds) (zeros : Zeros fraction)
      (after : White back) (short : ds.length + negative.toNat ≤ maxIntegerText) :
      Numeral (front ++ (number ++ fraction) ++ back)
        (if negative then -(Nat.ofDigitChars 10 ds 0 : Int) else Nat.ofDigitChars 10 ds 0)

/-! ### Plain notation -/

/-- The sign of plain notation. -/
def minus (negative : Bool) : List Char := if negative then ['-'] else []

/-- Digits that write a number as it is usually written. -/
structure Plain (negative : Bool) (ds : List Char) : Prop where
  some_ : ds ≠ []
  digits : ∀ c ∈ ds, c.isDigit = true
  first : 1 < ds.length → ds.head? ≠ some '0'
  short : ds.length + negative.toNat ≤ maxIntegerText

theorem exists_takeMinus (cs : List Char) : cs = minus (takeMinus cs).1 ++ (takeMinus cs).2 := by
  unfold takeMinus
  split <;> rfl

theorem takeMinus_minus (negative : Bool) (digit : ∀ c ∈ ds.head?, c.isDigit = true) :
    takeMinus (minus negative ++ ds) = (negative, ds) := by
  cases negative with
  | true => rfl
  | false =>
    show takeMinus ds = _
    unfold takeMinus
    split
    · exact absurd (digit '-' rfl) (by decide)
    · rfl

theorem padded_iff :
    ¬(ds.head? = some '0' ∧ ds ≠ ['0']) ↔ (1 < ds.length → ds.head? ≠ some '0') := by
  rw [not_and, not_not]
  match ds with
  | [] => simp
  | [c] => simp
  | c :: d :: rest => simp

theorem decimal_eq_ok_iff : decimal cs = .ok i ↔ ∃ negative ds, cs = minus negative ++ ds ∧
    Plain negative ds ∧
    i = if negative then -(Nat.ofDigitChars 10 ds 0 : Int) else Nat.ofDigitChars 10 ds 0 := by
  constructor
  · intro read
    have parts := exists_takeMinus cs
    unfold decimal at read
    generalize takeMinus cs = p at parts read
    obtain ⟨negative, unsigned⟩ := p
    dsimp only at read parts
    generalize same : unsigned.takeWhile Char.isDigit = digits at read
    have digits_ : ∀ c ∈ digits, c.isDigit = true := by
      rw [← same]
      exact mem_takeWhile
    split at read
    · cases read
    · next padded =>
      split at read
      · cases read
      · next long =>
        split at read
        · next n value none_ =>
          have whole := List.takeWhile_append_dropWhile (p := Char.isDigit) (l := unsigned)
          rw [none_, List.append_nil, same] at whole
          have some_ : digits ≠ [] := by
            rintro rfl
            cases value
          rw [number?_ofDigitChars some_ digits_] at value
          obtain rfl := Option.some.inj value
          rw [← whole] at parts
          exact ⟨negative, digits, parts,
            ⟨some_, digits_, padded_iff.mp padded, Nat.not_lt.mp long⟩, (Except.ok.inj read).symm⟩
        · cases read
  · rintro ⟨negative, ds, rfl, plain, rfl⟩
    have taken : ds.takeWhile Char.isDigit = ds := List.takeWhile_eq_self_iff.mpr plain.digits
    have dropped : ds.dropWhile Char.isDigit = [] := List.dropWhile_eq_nil_iff.mpr plain.digits
    have first : ∀ c ∈ ds.head?, c.isDigit = true := fun c head =>
      plain.digits c (List.mem_of_mem_head? head)
    unfold decimal
    rw [takeMinus_minus negative first]
    dsimp only
    rw [taken, dropped, if_neg (padded_iff.mpr plain.first), if_neg (Nat.not_lt.mpr plain.short),
      number?_ofDigitChars plain.some_ plain.digits]

/-! ### What is dropped -/

theorem dropFraction_append (whole_ : ∀ c ∈ whole, decide (c ≠ '.') = true)
    (zeros : Zeros fraction) : dropFraction (whole ++ fraction) = whole := by
  have stops : ∀ c ∈ fraction.head?, decide (c ≠ '.') = false := by
    rcases zeros with rfl | ⟨k, rfl⟩
    · nofun
    · intro c same
      obtain rfl := Option.some.inj same
      rfl
  rw [dropFraction, dropWhile_append whole_ stops, takeWhile_append whole_ stops]
  rcases zeros with rfl | ⟨k, rfl⟩
  · rw [List.append_nil]
  · rw [List.replicate_succ]
    dsimp only
    rw [← List.replicate_succ, if_pos (by simp)]

/-- A fraction that is dropped is all zeros. -/
theorem exists_fraction (t : List Char) :
    ∃ fraction, Zeros fraction ∧ t = dropFraction t ++ fraction := by
  unfold dropFraction
  split
  · next c d rest behind =>
    split
    · next zeros =>
      have point : c = '.' := by
        have head := head?_dropWhile (p := (· ≠ '.')) (s := t) (c := c) (by rw [behind]; rfl)
        simpa using head
      have same : d :: rest = List.replicate (rest.length + 1) '0' :=
        List.eq_replicate_of_mem (by simpa using zeros)
      refine ⟨c :: d :: rest, .inr ⟨rest.length, by rw [point, ← same]⟩, ?_⟩
      rw [← behind, List.takeWhile_append_dropWhile]
    · exact ⟨[], .inl rfl, (List.append_nil t).symm⟩
  · exact ⟨[], .inl rfl, (List.append_nil t).symm⟩

theorem dropScores_eq (cs : List Char) : dropScores cs =
    if cs.head? = some '_' ∨ cs.getLast? = some '_' ∨ twoScores cs = true then cs
    else cs.filter (· ≠ '_') := rfl

theorem dropScores_of_grouped (grouped : Grouped cs ds) : dropScores cs = ds := by
  obtain ⟨first, rest, rfl, -, digit⟩ := grouped.exists_cons
  obtain ⟨last, stop, digit_⟩ := grouped.exists_getLast?
  rw [dropScores_eq, grouped.not_twoScores, stop, if_neg, grouped.filter_ne_score]
  rintro (front | back | two)
  · exact ne_of_isDigit digit '_' rfl (Option.some.inj front)
  · exact ne_of_isDigit digit_ '_' rfl (Option.some.inj back)
  · cases two

theorem dropScores_negative {score : List Char} (scored : score = [] ∨ score = ['_'])
    (grouped : Grouped cs ds) : dropScores ('-' :: (score ++ cs)) = '-' :: ds := by
  obtain ⟨first, rest, rfl, -, digit⟩ := grouped.exists_cons
  obtain ⟨last, stop, digit_⟩ := grouped.exists_getLast?
  have single := grouped.not_twoScores
  have kept := grouped.filter_ne_score
  have back : ('-' :: (score ++ first :: rest)).getLast? = some last := by
    rw [List.getLast?_cons, List.getLast?_append, stop]
    rfl
  have two : twoScores ('-' :: (score ++ first :: rest)) = false := by
    rcases scored with rfl | rfl
    · rw [List.nil_append, twoScores_cons, single]
      rfl
    · rw [List.singleton_append, twoScores_cons, twoScores_cons, single]
      simp [ne_score digit]
  rw [dropScores_eq, back, two, if_neg, List.filter_cons_of_pos (by decide), List.filter_append,
    kept]
  · rcases scored with rfl | rfl <;> rfl
  · rintro (front | back | two)
    · cases front
    · exact ne_of_isDigit digit_ '_' rfl (Option.some.inj back)
    · cases two

/-- Underscores that are dropped are single, and none stands at an end. -/
theorem of_dropScores (none_ : '_' ∉ dropScores cs) :
    dropScores cs = cs.filter (· ≠ '_') ∧ cs.head? ≠ some '_' ∧ cs.getLast? ≠ some '_' ∧
      twoScores cs = false := by
  rw [dropScores_eq] at none_ ⊢
  split at none_
  · next scores =>
    refine absurd ?_ none_
    rcases scores with front | back | two
    · exact List.mem_of_mem_head? front
    · exact List.mem_of_mem_getLast? back
    · exact (List.of_mem_zip (List.contains_iff_mem.mp two)).1
  · next scores =>
    rw [not_or, not_or, Bool.not_eq_true] at scores
    exact ⟨if_neg (by simpa using scores), scores⟩

/-! ### Zeros in front -/

theorem dropZeros_pad {more : List Char} (pad : ∀ c ∈ more, c = '0' ∨ c = '_') (last : Char)
    (rest : List Char) : ∃ l, dropZeros last (more ++ rest) = dropZeros l rest := by
  induction more generalizing last with
  | nil => exact ⟨last, rfl⟩
  | cons c more ih =>
    obtain ⟨here, later⟩ := List.forall_mem_cons.mp pad
    rw [List.cons_append, dropZeros, if_pos here]
    exact ih later c

theorem dropZeros_digit (digit : c.isDigit = true) (other : c ≠ '0') (last : Char)
    (rest : List Char) : dropZeros last (c :: rest) = some (c :: rest) := by
  rw [dropZeros, if_neg (not_or.mpr ⟨other, (ne_score digit).symm⟩), if_pos digit]

theorem dropZeros_fraction (zeros : Zeros fraction) (last : Char) :
    dropZeros last fraction = some (last :: fraction) := by
  rcases zeros with rfl | ⟨k, rfl⟩
  · rfl
  · rw [dropZeros, if_neg (by decide), if_neg (by decide), if_pos rfl]

theorem unpadded?_digit (digit : c.isDigit = true) (other : c ≠ '0') (rest : List Char) :
    unpadded? (c :: rest) = some (c :: rest) := by
  rw [unpadded?, digit]
  · rfl
  exact other

theorem unpadded?_padding (padding : Padding zeros) (grouped : Grouped whole ds)
    (first : ds.head? ≠ some '0') (fraction : List Char) :
    unpadded? (zeros ++ whole ++ fraction) = some (whole ++ fraction) := by
  obtain ⟨c, rest, rfl, start, digit⟩ := grouped.exists_cons
  have other : c ≠ '0' := by
    rintro rfl
    exact first start
  rcases padding with rfl | ⟨more, rfl, pad⟩
  · exact unpadded?_digit digit other _
  · obtain ⟨l, dropped⟩ := dropZeros_pad pad '0' (c :: (rest ++ fraction))
    rw [List.append_assoc, List.cons_append, List.cons_append, unpadded?, dropped,
      dropZeros_digit digit other]

theorem unpadded?_zeros (padding : Padding zeros) (fraction_ : Zeros fraction) :
    unpadded? (zeros ++ ['0'] ++ fraction) = some ('0' :: fraction) := by
  rcases padding with rfl | ⟨more, rfl, pad⟩
  · exact dropZeros_fraction fraction_ '0'
  · obtain ⟨l, dropped⟩ := dropZeros_pad pad '0' ('0' :: fraction)
    rw [List.append_assoc, List.cons_append, unpadded?, List.singleton_append, dropped, dropZeros,
      if_pos (.inl rfl), dropZeros_fraction fraction_]

/-- Nothing but zeros and underscores is dropped, and no minus sign is left. -/
theorem of_dropZeros {last : Char} (kept : dropZeros last rest = some t)
    (pad : last = '0' ∨ last = '_') :
    ∃ zeros, last :: rest = zeros ++ t ∧ (∀ c ∈ zeros, c = '0' ∨ c = '_') ∧
      t.head? ≠ some '-' := by
  have dash : last ≠ '-' := by rcases pad with rfl | rfl <;> decide
  induction rest generalizing last with
  | nil =>
    cases kept
    exact ⟨[], rfl, List.forall_mem_nil _, fun same => dash (Option.some.inj same)⟩
  | cons c rest ih =>
    rw [dropZeros] at kept
    split at kept
    · next here =>
      obtain ⟨zeros, same, pads, head⟩ := ih kept here (by rcases here with rfl | rfl <;> decide)
      exact ⟨last :: zeros, congrArg (last :: ·) same, List.forall_mem_cons.mpr ⟨pad, pads⟩, head⟩
    · split at kept
      · next digit =>
        cases kept
        refine ⟨[last], rfl, List.forall_mem_singleton.mpr pad, fun same => ?_⟩
        exact ne_of_isDigit digit '-' rfl (Option.some.inj same)
      · split at kept
        · next point =>
          subst point
          cases kept
          exact ⟨[], rfl, List.forall_mem_nil _, fun same => dash (Option.some.inj same)⟩
        · cases kept

theorem of_unpadded? (kept : unpadded? cs = some t) :
    ∃ zeros, cs = zeros ++ t ∧ Padding zeros ∧ (t.head? = some '-' → zeros = []) := by
  unfold unpadded? at kept
  split at kept
  · next rest =>
    obtain ⟨zeros, same, pads, head⟩ := of_dropZeros kept (.inl rfl)
    refine ⟨zeros, same, ?_, fun dash => absurd dash head⟩
    cases zeros with
    | nil => exact .inl rfl
    | cons c zeros =>
      cases same
      exact .inr ⟨zeros, rfl, (List.forall_mem_cons.mp pads).2⟩
  · split at kept
    · cases kept
      exact ⟨[], rfl, .inl rfl, fun _ => rfl⟩
    · cases kept
  · cases kept

theorem of_unsigned? (kept : unsigned? cs = some t) :
    ∃ sign zeros, cs = sign ++ (zeros ++ t) ∧ (sign = [] ∨ sign = ['+']) ∧ Padding zeros ∧
      (t.head? = some '-' → sign = [] ∧ zeros = []) := by
  unfold unsigned? at kept
  split at kept
  · next rest =>
    split at kept
    · cases kept
    · next dash =>
      obtain ⟨zeros, rfl, padding, head⟩ := of_unpadded? kept
      refine ⟨['+'], zeros, rfl, .inr rfl, padding, fun minus => absurd ?_ dash⟩
      rw [head minus, List.nil_append, minus]
  · obtain ⟨zeros, rfl, padding, head⟩ := of_unpadded? kept
    exact ⟨[], zeros, rfl, .inl rfl, padding, fun minus => ⟨rfl, head minus⟩⟩

theorem unsigned?_plus {sign : List Char} (plus : sign = [] ∨ sign = ['+'])
    (digit : ∃ c rest, cs = c :: rest ∧ c.isDigit = true) :
    unsigned? (sign ++ cs) = unpadded? cs := by
  obtain ⟨c, rest, rfl, digit⟩ := digit
  have notPlus := ne_of_isDigit digit '+' rfl
  rcases plus with rfl | rfl
  · rw [List.nil_append, unsigned?]
    simpa using notPlus
  · refine if_neg fun same => ?_
    exact ne_of_isDigit digit '-' rfl (Option.some.inj same)

/-! ### Texts -/

theorem exists_trim (cs : List Char) :
    ∃ front back, cs = front ++ trim cs ++ back ∧ White front ∧ White back := by
  refine ⟨cs.takeWhile isWhiteSpace,
    ((cs.dropWhile isWhiteSpace).reverse.takeWhile isWhiteSpace).reverse, ?_, ?_, ?_⟩
  · have inner := congrArg List.reverse
      (List.takeWhile_append_dropWhile (p := isWhiteSpace)
        (l := (cs.dropWhile isWhiteSpace).reverse))
    rw [List.reverse_append, List.reverse_reverse] at inner
    rw [List.append_assoc, trim, inner, List.takeWhile_append_dropWhile]
  · intro c member
    exact mem_takeWhile c member
  · intro c member
    exact mem_takeWhile c (List.mem_reverse.mp member)

theorem trim_append {front core back : List Char} (before : White front) (after : White back)
    {first last : Char} (start : core.head? = some first) (stop : core.getLast? = some last)
    (solid : isWhiteSpace first = false ∧ isWhiteSpace last = false) :
    trim (front ++ core ++ back) = core := by
  have head : ∀ c ∈ (core ++ back).head?, isWhiteSpace c = false := by
    intro c same
    rw [List.head?_append, start, Option.some_or] at same
    obtain rfl := Option.some.inj same
    exact solid.1
  have behind : ∀ c ∈ core.reverse.head?, isWhiteSpace c = false := by
    intro c same
    rw [List.head?_reverse, stop] at same
    obtain rfl := Option.some.inj same
    exact solid.2
  have white : ∀ c ∈ back.reverse, isWhiteSpace c = true := fun c member =>
    after c (List.mem_reverse.mp member)
  rw [trim, List.append_assoc, dropWhile_append before head, List.reverse_append,
    dropWhile_append white behind, List.reverse_reverse]

theorem grouped_of_filter (filtered : cs.filter (· ≠ '_') = ds) (some_ : ds ≠ [])
    (digits : ∀ c ∈ ds, c.isDigit = true) (front : cs.head? ≠ some '_')
    (back : cs.getLast? ≠ some '_') (single : twoScores cs = false) : Grouped cs ds := by
  have chars : ∀ c ∈ cs, c = '_' ∨ c.isDigit = true := by
    intro c member
    refine or_iff_not_imp_left.mpr fun other => digits c ?_
    rw [← filtered]
    exact List.mem_filter.mpr ⟨member, decide_eq_true other⟩
  have first : cs.head?.any Char.isDigit = true := by
    cases cs with
    | nil => exact absurd filtered.symm some_
    | cons c rest =>
      exact (chars c List.mem_cons_self).resolve_left fun same => front (congrArg some same)
  rw [← filtered]
  exact grouped_filter first back single chars

namespace Signed

variable {number front back : List Char} {negative : Bool}

theorem plain (signed : Signed number negative ds)
    (short : ds.length + negative.toNat ≤ maxIntegerText) : Plain negative ds := by
  cases signed with
  | padded _ _ grouped first => exact ⟨grouped.ne_nil, grouped.isDigit, fun _ => first, short⟩
  | zero _ _ =>
    have single : ∀ long : 1 < ['0'].length, ['0'].head? ≠ some '0' := fun long =>
      absurd long (by decide)
    exact ⟨List.cons_ne_nil _ _, List.forall_mem_singleton.mpr rfl, single, short⟩
  | negative _ grouped first => exact ⟨grouped.ne_nil, grouped.isDigit, first, short⟩

/-- What is left of a number when everything that does not count is dropped. -/
theorem reads (signed : Signed number negative ds) (fraction_ : Zeros fraction) :
    ∃ t, unsigned? (number ++ fraction) = some t ∧
      dropScores (dropFraction t) = minus negative ++ ds := by
  cases signed with
  | @padded sign zeros whole _ plus padding grouped first =>
    refine ⟨whole ++ fraction, ?_, ?_⟩
    · have start : ∃ c rest, zeros ++ whole ++ fraction = c :: rest ∧ c.isDigit = true := by
        obtain ⟨c, rest, rfl, -, digit⟩ := grouped.exists_cons
        rcases padding with rfl | ⟨more, rfl, -⟩
        · exact ⟨c, _, rfl, digit⟩
        · exact ⟨'0', _, rfl, rfl⟩
      rw [List.append_assoc, unsigned?_plus plus start, unpadded?_padding padding grouped first]
    · rw [dropFraction_append grouped.ne_point fraction_, dropScores_of_grouped grouped]
      rfl
  | @zero sign zeros plus padding =>
    refine ⟨['0'] ++ fraction, ?_, ?_⟩
    · have start : ∃ c rest, zeros ++ ['0'] ++ fraction = c :: rest ∧ c.isDigit = true := by
        rcases padding with rfl | ⟨more, rfl, -⟩
        · exact ⟨'0', _, rfl, rfl⟩
        · exact ⟨'0', _, rfl, rfl⟩
      rw [List.append_assoc, unsigned?_plus plus start, unpadded?_zeros padding fraction_]
      rfl
    · rw [dropFraction_append (List.forall_mem_singleton.mpr rfl) fraction_]
      rfl
  | @negative score whole _ scored grouped first =>
    refine ⟨'-' :: (score ++ whole) ++ fraction, rfl, ?_⟩
    have point : ∀ c ∈ '-' :: (score ++ whole), decide (c ≠ '.') = true := by
      refine List.forall_mem_cons.mpr ⟨rfl, List.forall_mem_append.mpr ⟨?_, grouped.ne_point⟩⟩
      rcases scored with rfl | rfl
      · exact List.forall_mem_nil _
      · exact List.forall_mem_singleton.mpr rfl
    rw [dropFraction_append point fraction_, dropScores_negative scored grouped]
    rfl

theorem not_isWhiteSpace (digit : c.isDigit = true) : isWhiteSpace c = false := by
  have range : 0x30 ≤ c.toNat ∧ c.toNat ≤ 0x39 := Char.isDigit_iff_toNat.mp digit
  simp [isWhiteSpace]
  omega

theorem exists_head (signed : Signed number negative ds) :
    ∃ c rest, number = c :: rest ∧ isWhiteSpace c = false := by
  have plus {sign t : List Char} (plus : sign = [] ∨ sign = ['+'])
      (digit : ∃ c rest, t = c :: rest ∧ c.isDigit = true) :
      ∃ c rest, sign ++ t = c :: rest ∧ isWhiteSpace c = false := by
    obtain ⟨c, rest, rfl, digit⟩ := digit
    rcases plus with rfl | rfl
    · exact ⟨c, rest, rfl, not_isWhiteSpace digit⟩
    · exact ⟨'+', c :: rest, rfl, by decide⟩
  cases signed with
  | padded sign padding grouped _ =>
    refine plus sign ?_
    rcases padding with rfl | ⟨more, rfl, -⟩
    · obtain ⟨c, rest, same, -, digit⟩ := grouped.exists_cons
      exact ⟨c, rest, same, digit⟩
    · exact ⟨'0', _, rfl, rfl⟩
  | zero sign padding =>
    refine plus sign ?_
    rcases padding with rfl | ⟨more, rfl, -⟩
    · exact ⟨'0', _, rfl, rfl⟩
    · exact ⟨'0', _, rfl, rfl⟩
  | negative _ _ _ => exact ⟨'-', _, rfl, by decide⟩

theorem exists_getLast? (signed : Signed number negative ds) :
    ∃ c, number.getLast? = some c ∧ c.isDigit = true := by
  cases signed with
  | padded _ _ grouped _ =>
    obtain ⟨c, last, digit⟩ := grouped.exists_getLast?
    exact ⟨c, by rw [List.getLast?_append, List.getLast?_append, last]; rfl, digit⟩
  | zero _ _ => exact ⟨'0', by rw [List.getLast?_append, List.getLast?_concat]; rfl, rfl⟩
  | negative _ grouped _ =>
    obtain ⟨c, last, digit⟩ := grouped.exists_getLast?
    exact ⟨c, by rw [List.getLast?_cons, List.getLast?_append, last]; rfl, digit⟩

theorem trim_eq (signed : Signed number negative ds) (fraction_ : Zeros fraction)
    (before : White front) (after : White back) :
    trim (front ++ (number ++ fraction) ++ back) = number ++ fraction := by
  obtain ⟨first, rest, start, solid⟩ := signed.exists_head
  obtain ⟨last, stop, solid_⟩ : ∃ c, (number ++ fraction).getLast? = some c ∧
      isWhiteSpace c = false := by
    rcases fraction_ with rfl | ⟨k, rfl⟩
    · obtain ⟨c, last, digit⟩ := signed.exists_getLast?
      exact ⟨c, by rw [List.append_nil, last], not_isWhiteSpace digit⟩
    · refine ⟨'0', ?_, by decide⟩
      rw [List.replicate_succ', ← List.cons_append, ← List.append_assoc, List.getLast?_concat]
  exact trim_append before after (by rw [start]; rfl) stop ⟨solid, solid_⟩

end Signed

theorem twoScores_tail (single : twoScores (c :: cs) = false) : twoScores cs = false := by
  cases cs with
  | nil => rfl
  | cons d cs =>
    rw [twoScores_cons, Bool.or_eq_false_iff] at single
    exact single.2

theorem signed_negative (filtered : cs.filter (· ≠ '_') = ds) (plain : Plain true ds)
    (back : cs.getLast? ≠ some '_') (single : twoScores cs = false) :
    Signed ('-' :: cs) true ds := by
  cases cs with
  | nil => exact absurd filtered.symm plain.some_
  | cons c body =>
    by_cases score : c = '_'
    · subst score
      cases body with
      | nil => exact absurd rfl back
      | cons d body =>
        rw [twoScores_cons, Bool.or_eq_false_iff] at single
        have front : (d :: body).head? ≠ some '_' := by
          intro same
          rw [Option.some.inj same] at single
          cases single.1
        exact .negative (.inr rfl) (grouped_of_filter filtered plain.some_ plain.digits front back
          single.2) plain.first
    · have front : (c :: body).head? ≠ some '_' := fun same => score (Option.some.inj same)
      exact .negative (.inl rfl) (grouped_of_filter filtered plain.some_ plain.digits front back
        single) plain.first

/-- A number of which plain notation is left when everything that does not count is dropped. -/
theorem signed_of_unsigned? {number : List Char} {negative : Bool}
    (kept : unsigned? number = some t)
    (left : dropScores (dropFraction t) = minus negative ++ ds) (plain : Plain negative ds) :
    ∃ core fraction, number = core ++ fraction ∧ Signed core negative ds ∧ Zeros fraction := by
  have none_ : '_' ∉ dropScores (dropFraction t) := by
    rw [left, List.mem_append, not_or]
    refine ⟨by cases negative <;> decide, fun there => ?_⟩
    exact absurd (plain.digits '_' there) (by decide)
  obtain ⟨filtered, front, back, single⟩ := of_dropScores none_
  rw [left] at filtered
  obtain ⟨fraction, zeros_, parts⟩ := exists_fraction t
  obtain ⟨sign, zeros, rfl, plus, padding, dash⟩ := of_unsigned? kept
  generalize dropFraction t = u at filtered front back single parts
  subst parts
  cases negative with
  | false =>
    have grouped := grouped_of_filter filtered.symm plain.some_ plain.digits front back single
    by_cases first : ds.head? = some '0'
    · -- One zero is all there is.
      obtain ⟨rest, rfl⟩ : ∃ rest, ds = '0' :: rest := List.head?_eq_some_iff.mp first
      cases rest with
      | nil =>
        cases grouped with
        | last => exact ⟨_, _, by simp only [List.append_assoc], .zero plus padding, zeros_⟩
        | next _ rest => exact absurd rfl rest.ne_nil
        | spaced _ rest => exact absurd rfl rest.ne_nil
      | cons d rest => exact absurd first (plain.first (by simp))
    · exact ⟨_, _, by simp only [List.append_assoc], .padded plus padding grouped first, zeros_⟩
  | true =>
    cases u with
    | nil => cases filtered
    | cons c body =>
      have other : c ≠ '_' := fun same => front (congrArg some same)
      rw [List.filter_cons_of_pos (by simpa using other)] at filtered
      obtain ⟨rfl, digits⟩ := List.cons.inj filtered.symm
      obtain ⟨rfl, rfl⟩ := dash rfl
      have last : body.getLast? ≠ some '_' := by
        intro same
        rw [List.getLast?_cons, same] at back
        exact back rfl
      exact ⟨'-' :: body, fraction, rfl, signed_negative digits plain last (twoScores_tail single),
        zeros_⟩

theorem integerText_eq_ok_iff : integerText cs = .ok i ↔ Numeral cs i := by
  constructor
  · intro read
    unfold integerText at read
    split at read
    · cases read
    · next t kept =>
      obtain ⟨negative, ds, left, plain, rfl⟩ := decimal_eq_ok_iff.mp read
      obtain ⟨core, fraction, same, signed, zeros⟩ := signed_of_unsigned? kept left plain
      obtain ⟨front, back, text, before, after⟩ := exists_trim cs
      rw [text, same]
      exact .intro before signed zeros after plain.short
  · rintro ⟨before, signed, zeros, after, short⟩
    obtain ⟨t, kept, left⟩ := signed.reads zeros
    rw [integerText, signed.trim_eq zeros before after, kept]
    exact decimal_eq_ok_iff.mpr ⟨_, _, left, signed.plain short, rfl⟩

end ExprLexer.Schema
