import ExprLexer.Proofs.Yaml.Written

/-!
# Mappings in block context

Records as this library writes them: a sequence of mappings, each indented by two behind its dash.
-/

namespace ExprLexer.Yaml

/-- An entry of a mapping as it is written on one line, with what its two scalars say. -/
structure Field (flow : Bool) where
  key : List Char
  name : Text.Points
  keyPlain : Bool
  value : List Char
  text : Text.Points
  valuePlain : Bool
  writesKey : Writes flow key name keyPlain
  writesValue : Writes flow value text valuePlain
  short : key.length ≤ 1024

namespace Field

variable {flow : Bool} (f : Field flow) (fs : List (Field flow))

def line : List Char := f.key ++ ':' :: ' ' :: f.value

def tokens : List Token :=
  [.key, .scalar f.name f.keyPlain, .value, .scalar f.text f.valuePlain]

theorem line_narrow : ∀ c ∈ f.line, IsNarrow c := by
  intro c member
  simp only [line, List.mem_append, List.mem_cons] at member
  rcases member with key | rfl | rfl | value
  · exact f.writesKey.narrow c key
  · decide
  · decide
  · exact f.writesValue.narrow c value

theorem line_solid (after : List Char) : Input.Solid (f.line ++ after) := by
  rw [line, List.append_assoc]
  exact f.writesKey.solid _

end Field

/-- The lines of a mapping behind its first one. -/
def moreLines (fs : List (Field false)) : List Char :=
  fs.flatMap fun f => '\n' :: (Input.indentation 2 ++ f.line)

namespace Tokenizer

variable {ts : List Token} {indents : List Nat} {depth : Nat} {m : Mark} {after rest : List Char}

theorem reaches_name (depth : Nat) (f : Field (decide (0 < depth))) (inside : m.column ≠ 0)
    {opened : Bool}
    (opening : (!decide (0 < depth) && indents.head?.all (· < m.column)) = opened)
    (within : 0 < depth ∨ ∀ n ∈ indents.head?, n ≤ m.column) :
    Reaches (idle ⟨f.line ++ after, m⟩ ts indents depth true)
      (idle ⟨f.value ++ after, m.right (f.key.length + 2)⟩
        (.value :: .scalar f.name f.keyPlain :: .key ::
          (if opened then .blockMappingStart :: ts else ts))
        (if opened then m.column :: indents else indents) depth false) := by
  have space := reaches_indentation (n := 1) (m := m.right (f.key.length + 1))
    (f.writesValue.solid after) (t := idle ⟨f.value ++ after, m⟩
      (.value :: .scalar f.name f.keyPlain :: .key ::
        (if opened then .blockMappingStart :: ts else ts))
      (if opened then m.column :: indents else indents) depth false)
  have line : f.line ++ after = f.key ++ ':' :: ' ' :: (f.value ++ after) := by
    simp [Field.line]
  rw [line]
  rw [Mark.right_right] at space
  exact (reaches_key f.writesKey inside opened opening within f.short).trans space

section

variable {opened : Bool} (within : ∀ n ∈ indents.head?, n ≤ m.column)
  (opening : indents.head?.all (· < m.column) = opened)
include within opening

theorem head_opened :
    (if opened then m.column :: indents else indents).head? = some m.column := by
  cases indents with
  | nil =>
    subst opening
    rfl
  | cons d ds =>
    have least := within d rfl
    cases opened with
    | true => rfl
    | false =>
      have same : d = m.column := by
        simp only [List.head?_cons, Option.all_some, decide_eq_false_iff_not] at opening
        omega
      exact congrArg some same

/-- A line of a block mapping. The first one opens the mapping. -/
theorem reaches_field (ts : List Token) (f : Field false) {n : Nat} (inside : m.column ≠ 0)
    (solid : Input.Solid rest) (apart : atSeparator (Input.indentation n ++ rest) = false)
    (shallow : n ≤ m.column) :
    ∃ m', m'.column = n ∧
      Reaches (idle ⟨f.line ++ '\n' :: (Input.indentation n ++ rest), m⟩ ts indents 0 true)
        (idle ⟨rest, m'⟩ (f.tokens.reverse ++ (if opened then .blockMappingStart :: ts else ts))
          (if opened then m.column :: indents else indents) 0 true) := by
  have head := head_opened within opening
  have before : ∀ k ∈ (if opened then m.column :: indents else indents).head?,
      k ≤ (m.right (f.key.length + 2)).column := by
    intro k first
    obtain rfl := Option.some.inj (head.symm.trans first)
    exact Nat.le_add_right _ _
  have least : n < (if opened then m.column :: indents else indents).head?.elim 0 (· + 1) := by
    rw [head]
    exact Nat.lt_succ_of_le shallow
  have name : Reaches (idle ⟨f.line ++ '\n' :: (Input.indentation n ++ rest), m⟩ ts indents 0 true)
      (idle ⟨f.value ++ '\n' :: (Input.indentation n ++ rest), m.right (f.key.length + 2)⟩
        (.value :: .scalar f.name f.keyPlain :: .key ::
          (if opened then .blockMappingStart :: ts else ts))
        (if opened then m.column :: indents else indents) 0 false) :=
    reaches_name 0 f inside opening (.inr within)
  have behind : (m.right (f.key.length + 2)).column ≠ 0 := by simp
  obtain ⟨crossed, here, value⟩ := reaches_value_line 0 f.writesValue behind solid apart
    (.inr before) (fun _ => least) nofun
  obtain rfl := here rfl
  exact ⟨_, by simp, name.trans value⟩

theorem reaches_lines (ts : List Token) (f : Field false) (fs : List (Field false))
    (inside : m.column = 2) (solid : Input.Solid rest) (apart : atSeparator rest = false) :
    ∃ m', m'.column = 0 ∧
      Reaches (idle ⟨f.line ++ (moreLines fs ++ '\n' :: rest), m⟩ ts indents 0 true)
        (idle ⟨rest, m'⟩ (((f :: fs).flatMap Field.tokens).reverse ++
          (if opened then .blockMappingStart :: ts else ts))
          (if opened then m.column :: indents else indents) 0 true) := by
  -- Only the first line opens the mapping; each later one starts at its column.
  induction fs generalizing f m ts indents opened with
  | nil =>
    rw [List.flatMap_singleton]
    exact reaches_field within opening ts f (by omega) solid apart (by omega)
  | cons g fs ih =>
    have line := g.line_solid (moreLines fs ++ '\n' :: rest)
    obtain ⟨m', column, step⟩ := reaches_field (n := 2) within opening ts f (by omega) line rfl
      (by omega)
    have head := head_opened within opening
    have same : m'.column = m.column := column.trans inside.symm
    have within' : ∀ k ∈ (if opened then m.column :: indents else indents).head?,
        k ≤ m'.column := by
      simp [head, same]
    have opening' : (if opened then m.column :: indents else indents).head?.all
        (· < m'.column) = false := by
      simp [head, same]
    obtain ⟨m'', column', steps⟩ := ih within' opening'
      (f.tokens.reverse ++ (if opened then .blockMappingStart :: ts else ts)) g column
    refine ⟨m'', column', ?_⟩
    have text : f.line ++ (moreLines (g :: fs) ++ '\n' :: rest) =
        f.line ++ '\n' :: (Input.indentation 2 ++ (g.line ++ (moreLines fs ++ '\n' :: rest))) := by
      simp [moreLines]
    rw [text, List.flatMap_cons, List.reverse_append, List.append_assoc]
    exact step.trans steps

omit within in
theorem openBlock_idle {i : Input} (ts : List Token) (here : i.mark = m) (token : Token) :
    (idle i ts indents 0 true).openBlock token = .ok
      (idle i (if opened then token :: ts else ts)
        (if opened then m.column :: indents else indents) 0 true) := by
  subst here
  have top : (idle i ts indents 0 true).opens (idle i ts indents 0 true).column = opened := opening
  unfold openBlock
  rw [top]
  cases opened <;> rfl

/-- A dash, behind which an item stands. The first one opens the sequence. -/
theorem reaches_dash (ts : List Token) (solid : Input.Solid rest) :
    Reaches (idle ⟨'-' :: ' ' :: rest, m⟩ ts indents 0 true)
      (idle ⟨rest, m.right 2⟩ (.blockEntry :: (if opened then .blockSequenceStart :: ts else ts))
        (if opened then m.column :: indents else indents) 0 true) := by
  have narrow : IsNarrow '-' := by decide
  have first : Input.Solid ('-' :: ' ' :: rest) := by
    rintro c ⟨⟩
    decide
  have ready : Ready (idle ⟨'-' :: ' ' :: rest, m⟩ ts indents 0 true) :=
    ready_idle first nofun (.inr within)
  have dash := Input.step_narrow narrow (' ' :: rest) m
  have step : Reaches (idle ⟨'-' :: ' ' :: rest, m⟩ ts indents 0 true)
      (idle ⟨' ' :: rest, m.right 1⟩
        (.blockEntry :: (if opened then .blockSequenceStart :: ts else ts))
        (if opened then m.column :: indents else indents) 0 true) := by
    apply reaches_of_token ready
    · intro fuel enough
      have block := openBlock_idle (i := ⟨'-' :: ' ' :: rest, m⟩) opening ts rfl .blockSequenceStart
      have here : (idle ⟨'-' :: ' ' :: rest, m⟩ ts indents 0 true).token fuel =
          (idle ⟨'-' :: ' ' :: rest, m⟩ ts indents 0 true).blockEntry := by
        simp [token, idle, atSeparator, endsWord, isBlank]
      rw [here, blockEntry, block]
      simp [idle, dropCandidate, indicator, push, Input.skip, dash, bind, Except.bind]
    · simp [idle]
  have space := reaches_indentation (n := 1) (m := m.right 1) solid (t := idle ⟨rest, m⟩
    (.blockEntry :: (if opened then .blockSequenceStart :: ts else ts))
    (if opened then m.column :: indents else indents) 0 true)
  exact step.trans space

end

end Tokenizer

/-! ### Items -/

/-- A mapping as an item of a sequence. -/
structure Item (flow : Bool) where
  first : Field flow
  more : List (Field flow)

namespace Item

def text (i : Item false) : List Char :=
  '-' :: ' ' :: (i.first.line ++ (moreLines i.more ++ ['\n']))

def tokens (i : Item false) : List Token :=
  .blockEntry :: .blockMappingStart :: ((i.first :: i.more).flatMap Field.tokens ++ [.blockEnd])

end Item

namespace Tokenizer

variable {m : Mark} {rest : List Char}

theorem reaches_item (ts : List Token) (i : Item false) {indents : List Nat} {opened : Bool}
    (column : m.column = 0) (within : ∀ n ∈ indents.head?, n ≤ m.column)
    (opening : indents.head?.all (· < m.column) = opened) (solid : Input.Solid rest)
    (apart : atSeparator rest = false) :
    ∃ m', m'.column = 0 ∧
      Reaches (idle ⟨i.text ++ rest, m⟩ ts indents 0 true)
        (idle ⟨rest, m'⟩
          (i.tokens.reverse ++ (if opened then .blockSequenceStart :: ts else ts))
          (if opened then 0 :: indents else indents) 0 true) := by
  have line := i.first.line_solid (moreLines i.more ++ '\n' :: rest)
  have dash := reaches_dash within opening ts line
  have head := head_opened within opening
  rw [column] at dash head
  have within' : ∀ n ∈ (if opened then 0 :: indents else indents).head?,
      n ≤ (m.right 2).column := by
    simp [head]
  have opening' : (if opened then 0 :: indents else indents).head?.all
      (· < (m.right 2).column) = true := by
    simp [head, column]
  obtain ⟨m', column', lines⟩ := reaches_lines within' opening'
    (.blockEntry :: (if opened then .blockSequenceStart :: ts else ts)) i.first i.more
    (by simp [column]) solid apart
  refine ⟨m', column', ?_⟩
  have text : i.text ++ rest =
      '-' :: ' ' :: (i.first.line ++ (moreLines i.more ++ '\n' :: rest)) := by
    simp [Item.text]
  have less : m'.column < (m.right 2).column := by simp [column']
  have back : ∀ n ∈ (if opened then 0 :: indents else indents).head?, n ≤ m'.column := by
    simp [head]
  have tokens : i.tokens.reverse ++ (if opened then .blockSequenceStart :: ts else ts) =
      .blockEnd :: (((i.first :: i.more).flatMap Field.tokens).reverse ++ .blockMappingStart ::
        .blockEntry :: (if opened then .blockSequenceStart :: ts else ts)) := by
    simp [Item.tokens]
  rw [text, tokens]
  exact dash.trans (lines.trans (reaches_unwind solid less back))

theorem itemsText_solid (items : List (Item false)) :
    Input.Solid (items.flatMap Item.text) ∧ atSeparator (items.flatMap Item.text) = false := by
  cases items with
  | nil => exact ⟨nofun, rfl⟩
  | cons i items =>
    refine ⟨?_, rfl⟩
    rintro c ⟨⟩
    decide

theorem reaches_items (ts : List Token) (items : List (Item false)) (column : m.column = 0) :
    ∃ m', m'.column = 0 ∧
      Reaches (idle ⟨items.flatMap Item.text, m⟩ ts [0] 0 true)
        (idle ⟨[], m'⟩ ((items.flatMap Item.tokens).reverse ++ ts) [0] 0 true) := by
  induction items generalizing m ts with
  | nil => exact ⟨m, column, .refl _⟩
  | cons i items ih =>
    obtain ⟨solid, apart⟩ := itemsText_solid items
    have within : ∀ n ∈ [0].head?, n ≤ m.column := by simp
    have opening : [0].head?.all (· < m.column) = false := by simp [column]
    obtain ⟨m', column', step⟩ := reaches_item ts i column within opening solid apart
    obtain ⟨m'', column'', steps⟩ := ih (i.tokens.reverse ++ ts) column'
    refine ⟨m'', column'', ?_⟩
    rw [List.flatMap_cons, List.flatMap_cons, List.reverse_append, List.append_assoc]
    exact step.trans steps

end Tokenizer

theorem Item.text_allowed (i : Item false) : ∀ c ∈ i.text, isAllowed c = true := by
  intro c member
  simp only [Item.text, moreLines, List.mem_cons, List.mem_append, List.mem_flatMap] at member
  rcases member with rfl | rfl | line | ⟨f, -, rfl | blank | line⟩ | rfl | nothing
  · rfl
  · rfl
  · exact (i.first.line_narrow c line).isAllowed
  · rfl
  · exact (Input.indentation_narrow 2 c blank).isAllowed
  · exact (f.line_narrow c line).isAllowed
  · rfl
  · cases nothing

/-- The tokens of a block sequence of mappings. -/
theorem tokens_items (i : Item false) (items : List (Item false)) :
    tokens ((i :: items).flatMap Item.text) =
      .blockSequenceStart :: ((i :: items).flatMap Item.tokens ++ [.blockEnd, .streamEnd]) := by
  obtain ⟨solid, apart⟩ := Tokenizer.itemsText_solid items
  have within : ∀ n ∈ ([] : List Nat).head?, n ≤ 0 := nofun
  have opening : ([] : List Nat).head?.all (· < 0) = true := rfl
  obtain ⟨m, column, step⟩ := Tokenizer.reaches_item (m := ⟨0, 0, 0⟩) [] i rfl within opening solid
    apart
  obtain ⟨m', column', steps⟩ := Tokenizer.reaches_items
    (i.tokens.reverse ++ [.blockSequenceStart]) items column
  have valid : ∀ c ∈ (i :: items).flatMap Item.text, isAllowed c = true := by
    intro c member
    obtain ⟨j, -, member⟩ := List.mem_flatMap.mp member
    exact j.text_allowed c member
  rw [Tokenizer.tokens_of_reaches valid (by simp) (step.trans steps)]
  simp

end ExprLexer.Yaml
