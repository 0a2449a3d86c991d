import ExprLexer.Yaml.Input

/-!
# Reading narrow text

The documents that this library writes hold narrow characters and line feeds only. A narrow
character moves the mark one column to the right, and a line feed moves it to the next line.
-/

namespace ExprLexer.Yaml

/-- Printable ASCII, the space included. -/
def IsNarrow (c : Char) : Prop := 0x20 ≤ c.toNat ∧ c.toNat ≤ 0x7E

/-- Printable ASCII other than the space. -/
def IsVisible (c : Char) : Prop := 0x20 < c.toNat ∧ c.toNat ≤ 0x7E

instance : DecidablePred IsNarrow := fun c =>
  inferInstanceAs (Decidable (0x20 ≤ c.toNat ∧ c.toNat ≤ 0x7E))

instance : DecidablePred IsVisible := fun c =>
  inferInstanceAs (Decidable (0x20 < c.toNat ∧ c.toNat ≤ 0x7E))

variable {c : Char} {cs rest : List Char} {m : Mark}

theorem isNarrow_iff_le : IsNarrow c ↔ ' ' ≤ c ∧ c ≤ '~' := Iff.rfl

theorem IsVisible.isNarrow (visible : IsVisible c) : IsNarrow c :=
  ⟨Nat.le_of_lt visible.1, visible.2⟩

theorem isVisible_of_ne (narrow : IsNarrow c) (space : c ≠ ' ') : IsVisible c := by
  have other : c.toNat ≠ 0x20 := fun same => space (Char.toNat_inj.mp same)
  unfold IsNarrow at narrow
  unfold IsVisible
  omega

theorem IsNarrow.isAllowed (narrow : IsNarrow c) : isAllowed c = true := by
  unfold IsNarrow at narrow
  have inside : (decide (0x20 ≤ c.toNat) && decide (c.toNat ≤ 0x7E)) = true := by simpa using narrow
  simp only [Yaml.isAllowed, inside, Bool.or_true, Bool.true_or]

theorem IsNarrow.not_isBreak (narrow : IsNarrow c) : isBreak c = false := by
  rw [← Bool.not_eq_true]
  intro breaks
  simp only [isBreak, Bool.or_eq_true, decide_eq_true_eq] at breaks
  rcases breaks with (((rfl | rfl) | rfl) | rfl) | rfl <;> exact absurd narrow (by decide)

theorem IsVisible.not_isBlank (visible : IsVisible c) : isBlank c = false := by
  rw [← Bool.not_eq_true]
  intro blank
  simp only [isBlank, Bool.or_eq_true, decide_eq_true_eq] at blank
  rcases blank with rfl | rfl <;> exact absurd visible (by decide)

theorem IsVisible.ne_space (visible : IsVisible c) : c ≠ ' ' := by
  rintro rfl
  exact absurd visible (by decide)

/-! ### Marks -/

namespace Mark

/-- The mark `n` narrow characters to the right. -/
def right (m : Mark) (n : Nat) : Mark := ⟨m.index + n, m.line, m.column + n⟩

/-- The mark behind a line feed. -/
def down (m : Mark) : Mark := ⟨m.index + 1, m.line + 1, 0⟩

@[simp] theorem right_zero (m : Mark) : m.right 0 = m := rfl

@[simp] theorem right_right (m : Mark) (a b : Nat) : (m.right a).right b = m.right (a + b) := by
  simp only [right, Nat.add_assoc]

@[simp] theorem right_index (m : Mark) (n : Nat) : (m.right n).index = m.index + n := rfl

@[simp] theorem right_line (m : Mark) (n : Nat) : (m.right n).line = m.line := rfl

@[simp] theorem right_column (m : Mark) (n : Nat) : (m.right n).column = m.column + n := rfl

@[simp] theorem down_index (m : Mark) : m.down.index = m.index + 1 := rfl

@[simp] theorem down_line (m : Mark) : m.down.line = m.line + 1 := rfl

@[simp] theorem down_column (m : Mark) : m.down.column = 0 := rfl

theorem next_narrow (narrow : IsNarrow c) (m : Mark) (rest : List Char) :
    m.next c rest = m.right 1 := by
  have noMark : c ≠ '\ufeff' := by
    rintro rfl
    exact absurd narrow (by decide)
  rw [next, narrow.not_isBreak, Bool.false_and, if_neg Bool.false_ne_true, if_neg noMark]
  rfl

end Mark

/-! ### Steps and runs -/

namespace Input

theorem step_narrow (narrow : IsNarrow c) (rest : List Char) (m : Mark) :
    step ⟨c :: rest, m⟩ = ⟨rest, m.right 1⟩ := by
  rw [← Mark.next_narrow narrow]
  rfl

theorem skip_narrow (narrow : ∀ c ∈ cs, IsNarrow c) (rest : List Char) (m : Mark) :
    skip cs.length ⟨cs ++ rest, m⟩ = ⟨rest, m.right cs.length⟩ := by
  induction cs generalizing m with
  | nil => rfl
  | cons c cs ih =>
    obtain ⟨first, later⟩ := List.forall_mem_cons.mp narrow
    rw [List.cons_append, List.length_cons, skip, step_narrow first, ih later, Mark.right_right,
      Nat.add_comm]

theorem span_narrow {p : Char → Bool} (narrow : ∀ c ∈ cs, IsNarrow c)
    (inside : ∀ c ∈ cs, p c = true) (stop : ∀ c ∈ rest.head?, p c = false) :
    span p ⟨cs ++ rest, m⟩ = (cs, ⟨rest, m.right cs.length⟩) := by
  induction cs generalizing m with
  | nil =>
    cases rest with
    | nil => rfl
    | cons c rest => simp [span, spanFrom, stop c rfl]
  | cons c cs ih =>
    obtain ⟨narrow, narrows⟩ := List.forall_mem_cons.mp narrow
    obtain ⟨first, later⟩ := List.forall_mem_cons.mp inside
    have rest_ := ih (m := m.right 1) narrows later
    rw [span] at rest_
    dsimp only at rest_
    rw [span, List.cons_append, spanFrom, if_pos first, Mark.next_narrow narrow, rest_]
    dsimp only
    rw [Mark.right_right, List.length_cons, Nat.add_comm]

/-- What follows spaces on a line when it starts a token there or ends the text. -/
def Solid (rest : List Char) : Prop := ∀ c ∈ rest.head?, IsVisible c ∧ c ≠ '#'

def indentation (n : Nat) : List Char := List.replicate n ' '

theorem indentation_narrow (n : Nat) : ∀ c ∈ indentation n, IsNarrow c := by
  intro c member
  rw [List.eq_of_mem_replicate member]
  decide

theorem span_indentation (n : Nat) (stop : ∀ c ∈ rest.head?, c ≠ ' ') :
    span (· = ' ') ⟨indentation n ++ rest, m⟩ = (indentation n, ⟨rest, m.right n⟩) := by
  have run : span (· = ' ') ⟨indentation n ++ rest, m⟩ =
      (indentation n, ⟨rest, m.right (indentation n).length⟩) := span_narrow (indentation_narrow n)
    (fun c member => by simpa using List.eq_of_mem_replicate member)
    (fun c head => by simpa using stop c head)
  rwa [indentation, List.length_replicate] at run

theorem skipComment_solid (n : Nat) (solid : Solid rest) :
    skipComment ⟨indentation n ++ rest, m⟩ = ⟨rest, m.right n⟩ := by
  have stop : ∀ c ∈ rest.head?, c ≠ ' ' := fun c head => (solid c head).1.ne_space
  rw [skipComment, skipWhile, span_indentation n stop]
  dsimp only
  split
  · exact absurd rfl (solid '#' rfl).2
  · rfl

theorem lineBreak?_feed : lineBreak? ⟨'\n' :: rest, m⟩ = some ('\n', ⟨rest, m.down⟩) := rfl

theorem lineBreak?_none (line : ∀ c ∈ rest.head?, isBreak c = false) :
    lineBreak? ⟨rest, m⟩ = none := by
  unfold lineBreak?
  dsimp only
  split
  · exact absurd (line '\r' rfl) (by decide)
  · exact absurd (line '\u2028' rfl) (by decide)
  · exact absurd (line '\u2029' rfl) (by decide)
  · rw [line _ rfl]
    rfl
  · rfl

theorem Solid.not_isBreak (solid : Solid rest) : ∀ c ∈ rest.head?, isBreak c = false :=
  fun c head => (solid c head).1.isNarrow.not_isBreak

end Input

end ExprLexer.Yaml
