import Mathlib.Data.List.TakeWhile
import ExprLexer.Proofs.Text.Points
import ExprLexer.Proofs.Yaml.Node
import ExprLexer.Yaml.Scalar

/-!
# What the writer writes

A text without spaces, written as a scalar in block context, reads back as the same string
(`writesAs_writeScalar`), and a numeral as the same integer (`writesAs_toString`,
`intValue_digits`).
-/

namespace ExprLexer

namespace Yaml

/-- The characters `w` write a scalar of the text, which is tagged. -/
def WritesAs (flow : Bool) (tag : Tag) (w : List Char) (text : Text.Points) : Prop :=
  ∃ plain, Writes flow w text plain ∧ Node.scalarTag none text plain = tag

variable {flow : Bool} {c : Char} {cs rest : List Char}

theorem writesAs_ofPlain (writes : Writes flow cs (Text.Points.ofChars cs) true) :
    WritesAs flow (Tag.ofPlain cs) cs (Text.Points.ofChars cs) := by
  refine ⟨true, writes, ?_⟩
  rw [Node.scalarTag, Text.Points.toChars?_ofChars]
  rfl

theorem writesAs_quoted {double : Bool} {pieces : Pieces}
    (stands : ∀ p ∈ pieces, Stands double p.1 p.2) :
    WritesAs flow .str (quoteMark double :: (pieces.text ++ [quoteMark double])) pieces.points :=
  ⟨false, .quoted double stands, rfl⟩

/-! ### Texts -/

theorem getLast?_ne_colon {previous : Char} (whole : breaksPlain previous cs = false) :
    cs.getLast? ≠ some ':' := by
  induction cs generalizing previous with
  | nil => nofun
  | cons c cs ih =>
    rw [breaksPlain, Bool.or_eq_false_iff, Bool.or_eq_false_iff] at whole
    cases cs with
    | nil =>
      rintro ⟨⟩
      exact absurd whole.1.1 (by decide)
    | cons d cs =>
      rw [List.getLast?_cons_cons]
      exact ih whole.2

theorem startsPlain_of_not_startsToken (visible : ∀ d ∈ c :: cs, IsVisible d)
    (free : startsToken c cs = false) (after : List Char) :
    startsPlain false (c :: cs ++ after) = true := by
  obtain ⟨first, later⟩ := List.forall_mem_cons.mp visible
  rw [startsToken, Bool.or_eq_false_iff] at free
  obtain ⟨indicator, mark⟩ := free
  by_cases loose : c = '?' ∨ c = ':' ∨ c = '-'
  · have word : endsWord (cs ++ after) = false := by
      cases cs with
      | nil => rcases loose with rfl | rfl | rfl <;> cases mark
      | cons d cs =>
        obtain ⟨second, -⟩ := List.forall_mem_cons.mp later
        simp [endsWord, second.not_isBlank, second.isNarrow.not_isBreak]
    rcases loose with rfl | rfl | rfl <;> simp [startsPlain, word]
  · simp only [not_or] at loose
    simp at indicator
    simp [startsPlain, first.not_isBlank, first.isNarrow.not_isBreak, loose, indicator]

theorem writesAs_plain (visible : ∀ c ∈ cs, IsVisible c) (plain : canBePlain cs = true) :
    WritesAs false .str cs (Text.Points.ofChars cs) := by
  cases cs with
  | nil => cases plain
  | cons c cs =>
    simp only [canBePlain, Bool.and_eq_true, decide_eq_true_eq, Bool.not_eq_true'] at plain
    obtain ⟨⟨⟨⟨⟨⟨str, free⟩, whole⟩, -⟩, -⟩, -⟩, -⟩ := plain
    rw [← str]
    apply writesAs_ofPlain
    refine .plain visible (startsPlain_of_not_startsToken visible free) ?_
    exact fun after => unbroken_block visible (getLast?_ne_colon whole)

theorem writesAs_escaped {double : Bool} (escape : Char → List Char)
    (stands : ∀ c ∈ cs, Stands double (escape c) c.toNat) :
    WritesAs flow .str (quoteMark double :: (cs.flatMap escape ++ [quoteMark double]))
      (Text.Points.ofChars cs) := by
  have pieces : ∀ p ∈ cs.map fun c => (escape c, c.toNat), Stands double p.1 p.2 := by
    intro p member
    obtain ⟨c, inside, rfl⟩ := List.mem_map.mp member
    exact stands c inside
  have writes : WritesAs flow .str _ _ := writesAs_quoted pieces
  rw [Pieces.text, List.flatMap_map, Pieces.points, List.map_map] at writes
  exact writes

theorem writesAs_writeScalar (spaceless : ' ' ∉ cs) :
    WritesAs false .str (writeScalar cs) (Text.Points.ofChars cs) := by
  unfold writeScalar
  split
  · exact writesAs_escaped escapeDouble fun c _ => stands_escapeDouble c
  · next all =>
    have narrow : ∀ c ∈ cs, IsNarrow c := by
      intro c member
      simp only [List.any_eq_true, not_exists, not_and] at all
      exact isNarrow_iff_le.mpr (by simpa using all c member)
    split
    · next plain =>
      refine writesAs_plain (fun c member => isVisible_of_ne (narrow c member) ?_) plain
      exact fun space => spaceless (space ▸ member)
    · exact writesAs_escaped escapeSingle fun c member => stands_escapeSingle (narrow c member)

/-! ### Numerals -/

theorem writes_digits (some_ : cs ≠ []) (digits : ∀ c ∈ cs, c.isDigit = true) :
    Writes flow cs (Text.Points.ofChars cs) true := by
  have visible : ∀ c ∈ cs, IsVisible c := fun c member => isVisible_of_isDigit (digits c member)
  refine .plain visible (fun after => ?_) fun after => unbroken_digits digits
  obtain ⟨c, cs, rfl⟩ := List.exists_cons_of_ne_nil some_
  obtain ⟨first, -⟩ := List.forall_mem_cons.mp visible
  simp [startsPlain, first.not_isBlank, first.isNarrow.not_isBreak,
    ne_of_isDigit (digits c List.mem_cons_self)]

theorem dropWhile_digits (digits : ∀ c ∈ cs, c.isDigit = true) :
    cs.dropWhile Tag.isDigitOrScore = [] := by
  induction cs with
  | nil => rfl
  | cons c cs ih =>
    obtain ⟨first, later⟩ := List.forall_mem_cons.mp digits
    have here : Tag.isDigitOrScore c = true := by rw [Tag.isDigitOrScore, first, Bool.true_or]
    rw [List.dropWhile_cons_of_pos here, ih later]

theorem isOneOf_eq_false {names : List String} (digit : c.isDigit = true)
    (words : (names.all fun s => s.toList.head?.all fun d => !d.isDigit) = true) :
    Tag.isOneOf names (c :: cs) = false := by
  rw [Tag.isOneOf, List.any_eq_false]
  intro s member same
  have word := List.all_eq_true.mp words s member
  rw [eq_of_beq same] at word
  simp [digit] at word

theorem dropFeed_eq_self (last : cs.getLast? ≠ some '\n') : Text.dropFeed cs = cs := if_neg last

theorem ofPlain_eq_ofPattern (last : cs.getLast? ≠ some '\n') :
    Tag.ofPlain cs = Tag.ofPattern cs := by
  have other : cs ≠ ['\n'] := by
    rintro rfl
    exact last rfl
  rw [Tag.ofPlain, if_neg other, dropFeed_eq_self last]

theorem getLast?_ne_of_isVisible (visible : ∀ c ∈ cs, IsVisible c) : cs.getLast? ≠ some '\n' :=
  fun last => absurd (visible '\n' (List.mem_of_getLast? last)) (by decide)

theorem ofPattern_digits (head : c ≠ '0') (digits : ∀ d ∈ c :: cs, d.isDigit = true) :
    Tag.ofPattern (c :: cs) = .int := by
  obtain ⟨first, later⟩ := List.forall_mem_cons.mp digits
  have other := ne_of_isDigit first
  have unsigned : Tag.dropSign (c :: cs) = c :: cs := by
    unfold Tag.dropSign
    split
    · next same => exact absurd (List.cons.inj same).1 (other '-' rfl)
    · next same => exact absurd (List.cons.inj same).1 (other '+' rfl)
    · rfl
  have word : Tag.isOneOf Tag.flags (c :: cs) = false := isOneOf_eq_false first (by decide)
  have infinite : Tag.isOneOf [".inf", ".Inf", ".INF"] (c :: cs) = false :=
    isOneOf_eq_false first (by decide)
  have noNumber : Tag.isOneOf [".nan", ".NaN", ".NAN"] (c :: cs) = false :=
    isOneOf_eq_false first (by decide)
  have float : Tag.isFloat (c :: cs) = false := by
    unfold Tag.isFloat
    simp only [unsigned, infinite, noNumber, Bool.false_eq_true, if_false]
    split
    · next same => exact absurd (List.cons.inj same).1 (other '.' rfl)
    · next same _ =>
      obtain ⟨rfl, rfl⟩ := List.cons.inj same
      rw [dropWhile_digits later, Bool.and_false]
    · rfl
  have int : Tag.isInt (c :: cs) = true := by
    unfold Tag.isInt
    rw [unsigned]
    split
    · next same => exact absurd (List.cons.inj same).1 head
    · next same => exact absurd (List.cons.inj same).1 head
    · next same => exact absurd (List.cons.inj same).1 head
    · next same =>
      obtain ⟨rfl, rfl⟩ := List.cons.inj same
      rw [first, dropWhile_digits later]
      rfl
    · next same => cases same
  rw [Tag.ofPattern, word, float, int]
  rfl

theorem numeric_eq_self (visible : IsVisible c) : numeric c = c :=
  if_pos (Nat.lt_of_le_of_lt visible.2 (by decide))

theorem IsVisible.not_isWhiteSpace (visible : IsVisible c) : Text.isWhiteSpace c = false := by
  unfold IsVisible at visible
  simp [Text.isWhiteSpace]
  omega

theorem trimmed_eq_self (visible : ∀ c ∈ cs, IsVisible c) : trimmed cs = cs := by
  have keep : ∀ ds : List Char, (∀ c ∈ ds, IsVisible c) → ds.dropWhile Text.isWhiteSpace = ds := by
    intro ds solid
    cases ds with
    | nil => rfl
    | cons d ds =>
      have first := (solid d List.mem_cons_self).not_isWhiteSpace
      rw [List.dropWhile_cons_of_neg (by rw [first]; exact Bool.false_ne_true)]
  have same : cs.map numeric = cs :=
    (List.map_congr_left fun c member => numeric_eq_self (visible c member)).trans (List.map_id _)
  have back : ∀ c ∈ cs.reverse, IsVisible c := fun c member =>
    visible c (List.mem_reverse.mp member)
  rw [trimmed, same, Text.trim, keep cs visible, keep _ back, List.reverse_reverse]

theorem toList_toString {i : Int} (positive : 1 ≤ i) :
    (toString i).toList = Nat.toDigits 10 i.toNat := by
  obtain ⟨n, rfl⟩ : ∃ n : Nat, i = n := ⟨i.toNat, by omega⟩
  rw [Text.toList_toString_natCast, Int.toNat_natCast]

theorem writesAs_toString {i : Int} (positive : 1 ≤ i) :
    WritesAs flow .int (toString i).toList (Text.Points.ofChars (Nat.toDigits 10 i.toNat)) := by
  have digits := Text.isDigit_toDigits i.toNat
  obtain ⟨c, cs, spelled, head⟩ := Text.toDigits_ne_zero_head (n := i.toNat) (by omega)
  rw [toList_toString positive]
  rw [spelled] at digits ⊢
  have visible : ∀ d ∈ c :: cs, IsVisible d := fun d member =>
    isVisible_of_isDigit (digits d member)
  rw [← ofPattern_digits head digits, ← ofPlain_eq_ofPattern (getLast?_ne_of_isVisible visible)]
  exact writesAs_ofPlain (writes_digits (List.cons_ne_nil c cs) digits)

theorem takeSign_digits (digits : ∀ c ∈ cs, c.isDigit = true) : takeSign cs = (false, cs) := by
  unfold takeSign
  split
  · exact absurd rfl (ne_of_isDigit (digits '-' List.mem_cons_self) '-' rfl)
  · exact absurd rfl (ne_of_isDigit (digits '+' List.mem_cons_self) '+' rfl)
  · rfl

/-- The front of digits in an integer without white space around it is what can be too long. -/
theorem integer_of_isVisible (visible : ∀ c ∈ cs, IsVisible c)
    (unsigned : takeSign cs = (false, cs)) (base : Nat) : integer base cs =
      if base = 10 && maxDigits < (cs.takeWhile Char.isDigit).length then
        .error (.tooManyDigits (cs.takeWhile Char.isDigit).length)
      else
        match Text.number? base (dropBase base cs) with
        | none => .error (.noInteger base (Text.Points.ofChars cs))
        | some n => .ok (n : Int) := by
  rw [integer, trimmed_eq_self visible, unsigned]
  rfl

theorem integer_digits {n : Nat} (short : n < 10 ^ maxDigits) :
    integer 10 (Nat.toDigits 10 n) = .ok (n : Int) := by
  have digits := Text.isDigit_toDigits n
  have length : ¬ maxDigits < ((Nat.toDigits 10 n).takeWhile Char.isDigit).length := by
    rw [List.takeWhile_eq_self_iff.mpr digits, Nat.not_lt]
    exact (Nat.length_toDigits_le_iff (by decide) (by decide)).mpr short
  have base : dropBase 10 (Nat.toDigits 10 n) = Nat.toDigits 10 n := by
    unfold dropBase
    split <;> simp_all
  rw [integer_of_isVisible (fun c member => isVisible_of_isDigit (digits c member))
    (takeSign_digits digits), base, Text.number?_toDigits, if_neg (by simp [length])]

theorem intValue_digits {n : Nat} (positive : 0 < n) (short : n < 10 ^ maxDigits) :
    intValue (Nat.toDigits 10 n) = .ok (n : Int) := by
  have digits := Text.isDigit_toDigits n
  have value := integer_digits short
  obtain ⟨c, cs, spelled, head⟩ := Text.toDigits_ne_zero_head positive
  rw [spelled] at digits value ⊢
  have scores : (c :: cs).filter (· ≠ '_') = c :: cs := by
    rw [List.filter_eq_self]
    intro d member
    simpa using ne_of_isDigit (digits d member) '_' rfl
  have colons : (c :: cs).contains ':' = false := by
    rw [← Bool.not_eq_true, List.contains_iff_mem]
    exact fun member => ne_of_isDigit (digits ':' member) ':' rfl rfl
  unfold intValue
  dsimp only
  rw [scores, if_neg (List.cons_ne_nil c cs), takeSign_digits digits]
  dsimp only
  -- The marks of other bases start with a zero.
  split
  all_goals simp_all [Except.map]

end Yaml

end ExprLexer
