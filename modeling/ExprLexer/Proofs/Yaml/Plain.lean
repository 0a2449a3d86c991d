import ExprLexer.Proofs.Yaml.Input
import ExprLexer.Yaml.Plain

/-!
# Plain scalars read back

A plain scalar without blanks is one chunk. It ends at an indicator on its own line
(`plainFrom_indicator`), or with its line, if the next line is indented less or closes the flow
collection (`plainFrom_line`).
-/

namespace ExprLexer.Yaml

/-- No character of the scalar ends it when the text `after` follows. -/
def Unbroken (flow : Bool) (after : List Char) : List Char → Prop
  | [] => True
  | c :: cs => endsPlain flow c (cs ++ after) = false ∧ Unbroken flow after cs

variable {flow : Bool} {c : Char} {cs after rest : List Char} {m : Mark}

theorem unbroken_block (visible : ∀ c ∈ cs, IsVisible c) (colon : cs.getLast? ≠ some ':') :
    Unbroken false after cs := by
  induction cs with
  | nil => trivial
  | cons c cs ih =>
    obtain ⟨first, later⟩ := List.forall_mem_cons.mp visible
    cases cs with
    | nil =>
      have other : c ≠ ':' := by
        rintro rfl
        exact colon rfl
      simp [Unbroken, endsPlain, first.not_isBlank, first.isNarrow.not_isBreak, other]
    | cons d cs =>
      obtain ⟨second, -⟩ := List.forall_mem_cons.mp later
      have word : endsWord (d :: (cs ++ after)) = false := by
        simp [endsWord, second.not_isBlank, second.isNarrow.not_isBreak]
      refine ⟨?_, ih later ?_⟩
      · simp [endsPlain, first.not_isBlank, first.isNarrow.not_isBreak, word]
      · rwa [List.getLast?_cons_cons] at colon

theorem isVisible_of_isDigit (digit : c.isDigit = true) : IsVisible c := by
  have bounds : 48 ≤ c.toNat ∧ c.toNat ≤ 57 := Char.isDigit_iff_toNat.mp digit
  unfold IsVisible
  omega

theorem ne_of_isDigit (digit : c.isDigit = true) (d : Char) (symbol : d.isDigit = false) :
    c ≠ d := by
  rintro rfl
  rw [digit] at symbol
  cases symbol

theorem unbroken_digits (digits : ∀ c ∈ cs, c.isDigit = true) : Unbroken flow after cs := by
  induction cs with
  | nil => trivial
  | cons c cs ih =>
    obtain ⟨first, later⟩ := List.forall_mem_cons.mp digits
    have visible := isVisible_of_isDigit first
    refine ⟨?_, ih later⟩
    simp [endsPlain, visible.not_isBlank, visible.isNarrow.not_isBreak, ne_of_isDigit first]

theorem plainChunk_append (narrow : ∀ c ∈ cs, IsNarrow c) (unbroken : Unbroken flow after cs)
    (stop : ∀ c rest, after = c :: rest → endsPlain flow c rest = true) :
    plainChunk flow (cs ++ after) m = (cs, ⟨after, m.right cs.length⟩) := by
  induction cs generalizing m with
  | nil =>
    cases after with
    | nil => rfl
    | cons c rest => rw [List.nil_append, plainChunk, if_pos (stop c rest rfl)]; rfl
  | cons c cs ih =>
    obtain ⟨first, later⟩ := List.forall_mem_cons.mp narrow
    rw [List.cons_append, plainChunk, unbroken.1, if_neg Bool.false_ne_true,
      Mark.next_narrow first, ih later unbroken.2, List.length_cons]
    dsimp only
    rw [Mark.right_right, Nat.add_comm]

/-! ### Behind a chunk -/

theorem plainSpaces_indicator (stop : ∀ c ∈ rest.head?, IsVisible c) (fuel : Nat) :
    plainSpaces fuel ⟨rest, m⟩ = ⟨[], false, ⟨rest, m⟩⟩ := by
  have spaces : Input.span (· = ' ') ⟨rest, m⟩ = ([], ⟨rest, m⟩) :=
    Input.span_indentation 0 fun c head => (stop c head).ne_space
  have line : Input.lineBreak? ⟨rest, m⟩ = none :=
    Input.lineBreak?_none fun c head => (stop c head).isNarrow.not_isBreak
  rw [plainSpaces, spaces]
  dsimp only
  rw [line]

theorem plainSpaces_line (n : Nat) (solid : Input.Solid rest)
    (apart : atSeparator (Input.indentation n ++ rest) = false) (fuel : Nat) :
    plainSpaces (fuel + 1) ⟨'\n' :: (Input.indentation n ++ rest), m⟩ =
      ⟨[' '], true, ⟨rest, m.down.right n⟩⟩ := by
  have line : Input.lineBreak? ⟨rest, m.down.right n⟩ = none :=
    Input.lineBreak?_none solid.not_isBreak
  have spaces : Input.span (· = ' ') ⟨Input.indentation n ++ rest, m.down⟩ =
      (Input.indentation n, ⟨rest, m.down.right n⟩) :=
    Input.span_indentation n fun c head => (solid c head).1.ne_space
  have breaks : plainBreaks (fuel + 1) ⟨Input.indentation n ++ rest, m.down⟩ =
      (some [], ⟨rest, m.down.right n⟩) := by
    rw [plainBreaks, Input.skipWhile, spaces]
    dsimp only
    rw [line]
  have nothing : Input.span (· = ' ') ⟨'\n' :: (Input.indentation n ++ rest), m⟩ =
      ([], ⟨'\n' :: (Input.indentation n ++ rest), m⟩) :=
    Input.span_indentation 0 fun c head => by
      obtain rfl := Option.some.inj head
      decide
  rw [plainSpaces, nothing]
  dsimp only
  rw [Input.lineBreak?_feed]
  dsimp only
  rw [apart, if_neg Bool.false_ne_true, breaks]
  rfl

/-! ### Whole scalars -/

section

variable {indent fuel : Nat} {crossed : Bool} (some_ : cs ≠ []) (plain : cs.head? ≠ some '#')
  (narrow : ∀ c ∈ cs, IsNarrow c) (unbroken : Unbroken flow after cs)
include some_ plain narrow unbroken

theorem plainFrom_chunk (stop : ∀ c rest, after = c :: rest → endsPlain flow c rest = true) :
    plainFrom flow indent (fuel + 1) crossed ⟨cs ++ after, m⟩ =
      let spaces := plainSpaces fuel ⟨after, m.right cs.length⟩
      if spaces.text = [] || spaces.input.rest.head? = some '#'
          || (!flow && spaces.input.mark.column < indent) then
        (cs, spaces.crossed, spaces.input)
      else
        let (more, crossed, last) := plainFrom flow indent fuel spaces.crossed spaces.input
        (cs ++ (if more = [] then [] else spaces.text ++ more), crossed, last) := by
  have head : (cs ++ after).head? ≠ some '#' := by
    obtain ⟨c, cs, rfl⟩ := List.exists_cons_of_ne_nil some_
    exact plain
  rw [plainFrom]
  dsimp only
  rw [if_neg head, plainChunk_append narrow unbroken stop]
  dsimp only
  rw [if_neg some_]

theorem plainFrom_indicator (stop : ∀ c rest, after = c :: rest → endsPlain flow c rest = true)
    (visible : ∀ c ∈ after.head?, IsVisible c) :
    plainFrom flow indent (fuel + 1) crossed ⟨cs ++ after, m⟩ =
      (cs, false, ⟨after, m.right cs.length⟩) := by
  rw [plainFrom_chunk some_ plain narrow unbroken stop, plainSpaces_indicator visible]
  rfl

theorem plainFrom_line {n : Nat} (solid : Input.Solid rest)
    (apart : atSeparator (Input.indentation n ++ rest) = false)
    (shallow : flow = false → n < indent) (closes : flow = true → rest.head? = some '\x7d')
    (broken : after = '\n' :: (Input.indentation n ++ rest)) :
    plainFrom flow indent (fuel + 2) crossed ⟨cs ++ after, m⟩ =
      (cs, true, ⟨rest, (m.right cs.length).down.right n⟩) := by
  subst broken
  have stop : ∀ c more, '\n' :: (Input.indentation n ++ rest) = c :: more →
      endsPlain flow c more = true := by
    rintro c more line
    cases line
    rfl
  have next : rest.head? ≠ some '#' := fun comment => (solid '#' comment).2 rfl
  rw [plainFrom_chunk some_ plain narrow unbroken stop, plainSpaces_line n solid apart]
  dsimp only
  cases flow with
  | false =>
    have less := shallow rfl
    have column : decide (((m.right cs.length).down.right n).column < indent) = true := by
      simpa using less
    rw [column]
    simp
  | true =>
    obtain ⟨more, rfl⟩ := List.head?_eq_some_iff.mp (closes rfl)
    have nothing : plainFrom true indent (fuel + 1) true
        ⟨'\x7d' :: more, (m.right cs.length).down.right n⟩ =
          ([], true, ⟨'\x7d' :: more, (m.right cs.length).down.right n⟩) := rfl
    rw [nothing]
    simp

end

end ExprLexer.Yaml
