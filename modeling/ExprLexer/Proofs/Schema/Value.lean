import ExprLexer.Proofs.Schema.Numeral
import ExprLexer.Proofs.Text.Points

/-!
# Values that fields accept

`Holds`, `Integral` and `Flag` say which values stand for a string, for an integer and for a flag,
and for which one. The fields of records accept these values alone (`nonemptyText_eq_ok_iff`,
`positive_eq_ok_iff`, `flag_eq_ok_iff`).
-/

namespace ExprLexer.Schema

open Text

variable {d : Data} {i : Int} {s : String}

/-- The value holds the string, as text or as bytes in UTF-8. -/
inductive Holds : Data → String → Prop
  | text (s : String) : Holds (.ofString s) s
  | bytes (s : String) : Holds (.bytes s.toUTF8.data.toList) s

theorem unicode?_eq_some_iff : unicode? d = some (some s) ↔ Holds d s := by
  constructor
  · intro read
    unfold unicode? at read
    split at read
    · next t =>
      obtain rfl := Points.toString?_eq_some_iff.mp (Option.some.inj read)
      exact .text s
    · next bs =>
      have read := Option.some.inj read
      unfold String.fromUTF8? at read
      split at read
      · obtain rfl := Option.some.inj read
        exact .bytes (String.fromUTF8 ⟨bs.toArray⟩ _)
      · cases read
    · cases read
  · intro holds
    cases holds with
    | text => exact congrArg some (Points.toString?_ofString s)
    | bytes =>
      have same : (⟨s.toUTF8.data.toList.toArray⟩ : ByteArray) = s.toUTF8 := by
        rw [Array.toArray_toList]
      have valid : s.toUTF8.IsValidUTF8 := s.isValidUTF8
      rw [unicode?, same, String.fromUTF8?, dif_pos valid]
      rfl

theorem text_eq_ok_iff : text d = .ok s ↔ Holds d s := by
  rw [← unicode?_eq_some_iff]
  unfold text
  split
  · next other =>
    rw [other]
    exact ⟨nofun, nofun⟩
  · next other =>
    rw [other]
    exact ⟨nofun, nofun⟩
  · next r read =>
    rw [read, Except.ok.injEq, Option.some.injEq, Option.some.injEq]

/-- The value holds the text, which may have surrogates unless it is given in bytes. -/
inductive HoldsPoints : Data → Points → Prop
  | text (t : Points) : HoldsPoints (.text t) t
  | bytes (s : String) : HoldsPoints (.bytes s.toUTF8.data.toList) (.ofString s)

theorem points_eq_ok_iff {t : Points} : points d = .ok t ↔ HoldsPoints d t := by
  constructor
  · intro read
    unfold points at read
    split at read
    · obtain rfl := Except.ok.inj read
      exact .text _
    · next other =>
      split at read
      · cases read
      · cases read
      · next s held =>
        obtain rfl := Except.ok.inj read
        cases unicode?_eq_some_iff.mp held with
        | text => exact absurd rfl (other _)
        | bytes => exact .bytes s
  · intro holds
    cases holds with
    | text => rfl
    | bytes s =>
      unfold points
      dsimp only
      rw [unicode?_eq_some_iff.mpr (.bytes s)]

theorem nonemptyText_eq_ok_iff : nonemptyText d = .ok s ↔ Holds d s ∧ s ≠ "" := by
  rw [← text_eq_ok_iff]
  unfold nonemptyText
  split
  · next r read =>
    rw [read, Except.ok.injEq]
    by_cases empty : r.isEmpty = true
    · rw [if_pos empty]
      refine ⟨nofun, fun ⟨same, some_⟩ => ?_⟩
      exact absurd (String.isEmpty_iff.mp empty) (same ▸ some_)
    · rw [if_neg empty, Except.ok.injEq]
      refine ⟨fun same => ⟨same, ?_⟩, And.left⟩
      rintro rfl
      exact empty (String.isEmpty_iff.mpr same)
  · next c refused =>
    rw [refused]
    exact ⟨nofun, nofun⟩

/-- One of several names, each of which names one choice. -/
theorem oneOf_eq_ok_iff {α : Type} {choices : List α} {name : α → String} {a : α}
    (complete : ∀ a, a ∈ choices) (injective : Function.Injective name) :
    oneOf choices name d = .ok a ↔ d = .ofString (name a) := by
  unfold oneOf
  cases d with
  | text t =>
    dsimp only
    rw [Data.ofString, Data.text.injEq, ← Points.toString?_eq_some_iff]
    cases read : Points.toString? t with
    | none => exact iff_of_false nofun nofun
    | some s =>
      dsimp only
      rw [Option.some.injEq]
      cases found : choices.find? (name · == s) with
      | some b =>
        have chosen := List.find?_some found
        have named : name b = s := beq_iff_eq.mp chosen
        rw [Except.ok.injEq, ← named]
        exact ⟨congrArg name, fun same => injective same⟩
      | none =>
        refine iff_of_false nofun fun same => ?_
        exact List.find?_eq_none.mp found a (complete a) (beq_iff_eq.mpr same.symm)
  | _ => exact iff_of_false nofun nofun

/-- A value that stands for an integer: an integer, a flag, a whole binary64 number within 64 bits,
or a string that writes one. -/
inductive Integral : Data → Int → Prop
  | bool (b : Bool) : Integral (.bool b) (if b then 1 else 0)
  | int (i : Int) : Integral (.int i) i
  | real {x : Double} {i : Int} (whole : x.toInt? = some i)
      (word : -wordBound < i ∧ i < wordBound) : Integral (.real x) i
  | string {d : Data} {s : String} {i : Int} (holds : Holds d s) (numeral : Numeral s.toList i) :
      Integral d i

theorem integerReal_eq_ok_iff {x : Double} :
    integerReal x = .ok i ↔ x.toInt? = some i ∧ -wordBound < i ∧ i < wordBound := by
  unfold integerReal
  cases x with
  | finite s m e =>
    rw [Double.isFinite, Bool.not_true, if_neg Bool.false_ne_true]
    split
    · next other =>
      rw [other]
      exact ⟨nofun, nofun⟩
    · next k whole =>
      rw [whole, Option.some.injEq]
      split
      · next word =>
        rw [Except.ok.injEq]
        exact ⟨fun same => ⟨same, same ▸ word⟩, And.left⟩
      · next word => exact ⟨nofun, fun ⟨same, within⟩ => absurd (same ▸ within) word⟩
  | infinite s => exact ⟨nofun, nofun⟩
  | nan => exact ⟨nofun, nofun⟩

theorem integer_eq_ok_iff : integer d = .ok i ↔ Integral d i := by
  constructor
  · intro read
    unfold integer at read
    split at read
    · obtain rfl := Except.ok.inj read
      exact .bool _
    · obtain rfl := Except.ok.inj read
      exact .int _
    · obtain ⟨whole, word⟩ := integerReal_eq_ok_iff.mp read
      exact .real whole word
    · next t =>
      split at read
      · cases read
      · next cs chars =>
        have same := Points.ofChars_of_toChars? chars
        have holds := Holds.text (String.ofList cs)
        rw [Data.ofString, Points.ofString, String.toList_ofList, same] at holds
        refine .string holds ?_
        rw [String.toList_ofList]
        exact integerText_eq_ok_iff.mp read
    · split at read
      · next s held =>
        exact .string (unicode?_eq_some_iff.mp held) (integerText_eq_ok_iff.mp read)
      · cases read
    · cases read
  · intro integral
    cases integral with
    | bool b => rfl
    | int => rfl
    | real whole word => exact integerReal_eq_ok_iff.mpr ⟨whole, word⟩
    | @string _ s _ holds numeral =>
      have read := integerText_eq_ok_iff.mpr numeral
      cases holds with
      | text =>
        rw [Data.ofString, integer, Points.ofString, Points.toChars?_ofChars]
        exact read
      | bytes =>
        have held := unicode?_eq_some_iff.mpr (Holds.bytes s)
        unfold integer
        dsimp only
        rw [held]
        exact read

theorem positive_eq_ok_iff : positive d = .ok i ↔ Integral d i ∧ 1 ≤ i := by
  rw [← integer_eq_ok_iff]
  unfold positive
  split
  · next k read =>
    rw [read, Except.ok.injEq]
    by_cases small : k < 1
    · rw [if_pos small]
      refine ⟨nofun, fun ⟨same, positive⟩ => ?_⟩
      omega
    · rw [if_neg small, Except.ok.injEq]
      refine ⟨fun same => ⟨same, ?_⟩, And.left⟩
      omega
  · next c refused =>
    rw [refused]
    exact ⟨nofun, nofun⟩

/-! ### Flags -/

/-- The numbers zero and one stand for flags. -/
def flagNumber (b : Bool) : Int := if b then 1 else 0

/-- The words that stand for a flag, in lower case. -/
def flagWords (b : Bool) : List String :=
  if b then ["1", "on", "t", "true", "y", "yes"] else ["0", "off", "f", "false", "n", "no"]

/-- A value that stands for a flag: a flag, zero or one as an integer or as a binary64 number, or a
string that is one of the words for it, in any case. -/
inductive Flag : Data → Bool → Prop
  | bool (b : Bool) : Flag (.bool b) b
  | int (b : Bool) : Flag (.int (flagNumber b)) b
  | real {x : Double} {b : Bool} (whole : x.toInt? = some (flagNumber b)) : Flag (.real x) b
  | string {d : Data} {s word : String} {b : Bool} (holds : Holds d s) (among : word ∈ flagWords b)
      (same : s.toList.map Char.toLower = word.toList) : Flag d b

variable {b : Bool}

theorem flagText_eq_ok_iff {cs : List Char} :
    flagText cs = .ok b ↔ ∃ word ∈ flagWords b, cs.map Char.toLower = word.toList := by
  have named : ∀ words : List String,
      words.any (fun word => word.toList == cs.map Char.toLower) = true ↔
        ∃ word ∈ words, cs.map Char.toLower = word.toList := by
    intro words
    rw [List.any_eq_true]
    refine exists_congr fun word => and_congr_right fun _ => ?_
    rw [beq_iff_eq, eq_comm]
  have disjoint : ∀ word ∈ falseNames, ∀ other ∈ trueNames, word.toList ≠ other.toList := by decide
  unfold flagText
  dsimp only
  cases b with
  | true =>
    show _ ↔ ∃ word ∈ trueNames, _
    rw [← named]
    split
    · rename_i yes
      exact iff_of_true rfl yes
    · rename_i other
      refine iff_of_false ?_ other
      split <;> nofun
  | false =>
    show _ ↔ ∃ word ∈ falseNames, _
    rw [← named]
    split
    · rename_i yes
      refine iff_of_false nofun fun no => ?_
      obtain ⟨word, among, same⟩ := (named _).mp no
      obtain ⟨other, among', same'⟩ := (named _).mp yes
      exact disjoint word among other among' (same.symm.trans same')
    · split
      · rename_i no
        exact iff_of_true rfl no
      · rename_i other
        exact iff_of_false nofun other

theorem flagInteger_eq_ok_iff : flagInteger i = .ok b ↔ i = flagNumber b := by
  unfold flagInteger flagNumber
  cases b <;> grind

theorem flag_eq_ok_iff : flag d = .ok b ↔ Flag d b := by
  constructor
  · intro read
    unfold flag at read
    split at read
    · obtain rfl := Except.ok.inj read
      exact .bool _
    · split at read
      · obtain rfl := flagInteger_eq_ok_iff.mp read
        exact .int b
      · cases read
    · split at read
      · rename_i whole
        obtain rfl := flagInteger_eq_ok_iff.mp read
        exact .real (integerReal_eq_ok_iff.mp whole).1
      · cases read
    · next t =>
      split at read
      · cases read
      · next cs chars =>
        have holds := Holds.text (String.ofList cs)
        rw [Data.ofString, Points.ofString, String.toList_ofList,
          Points.ofChars_of_toChars? chars] at holds
        obtain ⟨word, among, same⟩ := flagText_eq_ok_iff.mp read
        exact .string holds among (by rw [String.toList_ofList, same])
    · split at read
      · next s held =>
        obtain ⟨word, among, same⟩ := flagText_eq_ok_iff.mp read
        exact .string (unicode?_eq_some_iff.mp held) among same
      · cases read
    · cases read
  · intro flag_
    cases flag_ with
    | bool => rfl
    | int => cases b <;> rfl
    | real whole =>
      have word : -wordBound < flagNumber b ∧ flagNumber b < wordBound := by cases b <;> decide
      have read := integerReal_eq_ok_iff.mpr ⟨whole, word⟩
      unfold flag
      dsimp only
      rw [read]
      exact flagInteger_eq_ok_iff.mpr rfl
    | @string _ s word _ holds among same =>
      have read := flagText_eq_ok_iff.mpr ⟨word, among, same⟩
      cases holds with
      | text =>
        rw [Data.ofString, flag, Points.ofString, Points.toChars?_ofChars]
        exact read
      | bytes =>
        have held := unicode?_eq_some_iff.mpr (Holds.bytes s)
        unfold flag
        dsimp only
        rw [held]
        exact read

end ExprLexer.Schema
