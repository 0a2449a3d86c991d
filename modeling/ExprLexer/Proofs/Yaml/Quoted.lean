import ExprLexer.Proofs.Text.Digits
import ExprLexer.Proofs.Text.Points
import ExprLexer.Proofs.Yaml.Input
import ExprLexer.Yaml.Quoted
import ExprLexer.Yaml.Writer

/-!
# Quoted scalars read back

Between quotes a text is written in pieces, one for each code point. A quoted scalar is read piece
by piece (`quotedScalar_pieces`), so that what the writer quotes reads back. Only spaces are read as
a whole run, which takes as much fuel as a single one: pieces are read with any fuel that is enough.
-/

namespace ExprLexer.Yaml

def quoteMark (double : Bool) : Char := if double then '"' else '\''

/-- Only narrow characters stand in front of a closing quote. -/
def Closes (double : Bool) (rest : List Char) : Prop :=
  ∃ inside after, rest = inside ++ quoteMark double :: after ∧ ∀ c ∈ inside, IsNarrow c

/-- With the given fuel or more, a quoted scalar is read as the given text. -/
def Finishes (double : Bool) (least : Nat) (i : Input) (read : Text.Points × Input) : Prop :=
  ∀ fuel, least ≤ fuel → quotedScalar double fuel i = .ok read

/-- Read at the front of a quoted scalar, the characters `w` give the code point `n`. -/
def Stands (double : Bool) (w : List Char) (n : Nat) : Prop :=
  w ≠ [] ∧ (∀ c ∈ w, IsNarrow c) ∧ ∀ least m rest more last, Closes double rest →
    Finishes double least ⟨rest, m.right w.length⟩ (more, last) →
      Finishes double (least + 1) ⟨w ++ rest, m⟩ (n :: more, last)

variable {double : Bool} {c : Char} {n : Nat} {i : Input} {rest : List Char} {m : Mark}

theorem isVisible_quoteMark (double : Bool) :
    IsVisible (quoteMark double) ∧ quoteMark double ≠ '#' := by
  cases double <;> decide

theorem Finishes.of_succ {least : Nat} {read : Text.Points × Input}
    (reads : ∀ fuel, least ≤ fuel → quotedScalar double (fuel + 1) i = .ok read) :
    Finishes double (least + 1) i read := by
  rintro (- | fuel) enough
  · exact absurd enough (Nat.not_succ_le_zero least)
  · exact reads fuel (Nat.le_of_succ_le_succ enough)

/-! ### Spaces -/

/-- Spaces in a scalar that closes are followed by something visible, not by a line break. -/
theorem Closes.exists_run (closes : Closes double rest) :
    ∃ n d after, rest = Input.indentation n ++ d :: after ∧ IsVisible d := by
  obtain ⟨inside, after, rfl, narrow⟩ := closes
  induction inside with
  | nil => exact ⟨0, _, after, rfl, (isVisible_quoteMark double).1⟩
  | cons c inside ih =>
    obtain ⟨first, later⟩ := List.forall_mem_cons.mp narrow
    by_cases space : c = ' '
    · obtain ⟨n, d, more, run, visible⟩ := ih later
      exact ⟨n + 1, d, more, by rw [space, List.cons_append, run]; rfl, visible⟩
    · exact ⟨0, c, _, rfl, isVisible_of_ne first space⟩

theorem quotedSpaces_run {d : Char} (visible : IsVisible d) (fuel n : Nat) :
    quotedSpaces fuel ⟨Input.indentation n ++ d :: rest, m⟩ =
      .ok (Input.indentation n, ⟨d :: rest, m.right n⟩) := by
  have run : Input.span isBlank ⟨Input.indentation n ++ d :: rest, m⟩ = _ :=
    Input.span_narrow (Input.indentation_narrow n)
      (fun c member => by rw [List.eq_of_mem_replicate member]; rfl)
      (fun c head => by cases head; exact visible.not_isBlank)
  rw [Input.indentation, List.length_replicate] at run
  have line : Input.lineBreak? ⟨d :: rest, m.right n⟩ = none :=
    Input.lineBreak?_none fun c head => by cases head; exact visible.isNarrow.not_isBreak
  rw [quotedSpaces, Input.indentation, run]
  dsimp only
  rw [line]
  exact if_neg (List.cons_ne_nil d rest)

theorem quotedScalar_run {d : Char} (visible : IsVisible d) (fuel n : Nat) :
    quotedScalar double (fuel + 1) ⟨Input.indentation (n + 1) ++ d :: rest, m⟩ =
      (quotedScalar double fuel ⟨d :: rest, m.right (n + 1)⟩).map fun read =>
        (Text.Points.ofChars (Input.indentation (n + 1)) ++ read.1, read.2) := by
  have spaces : quotedSpaces fuel ⟨Input.indentation (n + 1) ++ d :: rest, m⟩ = _ :=
    quotedSpaces_run visible fuel (n + 1)
  have blank : (isBlank ' ' || isBreak ' ') = true := by decide
  have marks : (double && decide (' ' = '"')) = false ∧
      (!double && decide (' ' = '\'')) = false := by
    cases double <;> decide
  rw [Input.indentation, List.replicate_succ, List.cons_append] at spaces ⊢
  simp only [quotedScalar, blank, marks.1, marks.2, spaces, Bool.false_and, Bool.false_eq_true,
    if_false, if_true, Except.map]
  cases quotedScalar double fuel ⟨d :: rest, m.right (n + 1)⟩ with
  | error f => rfl
  | ok read => rfl

/-- A space joins the run behind it, if there is one, and otherwise is a run of its own. -/
theorem stands_space (double : Bool) : Stands double [' '] (' ').toNat := by
  refine ⟨List.cons_ne_nil _ _, List.forall_mem_singleton.mpr (by decide), ?_⟩
  intro least m rest more last closes finishes
  apply Finishes.of_succ
  intro fuel enough
  obtain ⟨n, d, after, rfl, visible⟩ := closes.exists_run
  have whole : [' '] ++ (Input.indentation n ++ d :: after) =
      Input.indentation (n + 1) ++ d :: after := rfl
  have behind : (m.right 1).right n = m.right (n + 1) := by rw [Mark.right_right, Nat.add_comm]
  rw [whole, quotedScalar_run visible fuel n]
  cases n with
  | zero =>
    rw [show quotedScalar double fuel ⟨d :: after, m.right (0 + 1)⟩ = .ok (more, last) from
      finishes fuel enough]
    rfl
  | succ n =>
    have run := finishes (fuel + 1) (Nat.le_succ_of_le enough)
    rw [List.length_singleton, quotedScalar_run visible fuel n, behind] at run
    cases later : quotedScalar double fuel ⟨d :: after, m.right (n + 1 + 1)⟩ with
    | error f => rw [later] at run; cases run
    | ok read => rw [later] at run; cases run; rfl

/-! ### Pieces -/

/-- A piece stands if one step reads it, with any fuel for what is behind it. -/
theorem stands_of_step {w : List Char} (some_ : w ≠ []) (narrow : ∀ c ∈ w, IsNarrow c)
    (step : ∀ fuel m rest more last,
      quotedScalar double fuel ⟨rest, m.right w.length⟩ = .ok (more, last) →
        quotedScalar double (fuel + 1) ⟨w ++ rest, m⟩ = .ok (n :: more, last)) :
    Stands double w n := by
  refine ⟨some_, narrow, ?_⟩
  intro least m rest more last _ finishes
  exact Finishes.of_succ fun fuel enough => step fuel m rest more last (finishes fuel enough)

theorem stands_visible (visible : IsVisible c) (mark : c ≠ quoteMark double)
    (slash : double = true → c ≠ '\\') : Stands double [c] c.toNat := by
  refine stands_of_step (List.cons_ne_nil _ _) (List.forall_mem_singleton.mpr visible.isNarrow) ?_
  intro fuel m rest more last read
  have marks : (double && c = '"') = false ∧ (!double && c = '\'') = false := by
    cases double <;> simp_all [quoteMark]
  have step := Input.step_narrow visible.isNarrow rest m
  have plain : (double && decide (c = '\\')) = false := by simpa using slash
  simp only [List.singleton_append, quotedScalar, visible.not_isBlank, visible.isNarrow.not_isBreak,
    plain, marks.1, marks.2, step]
  simp only [List.length_singleton] at read
  simp [read]

theorem stands_narrow (narrow : IsNarrow c) (mark : c ≠ quoteMark double)
    (slash : double = true → c ≠ '\\') : Stands double [c] c.toNat := by
  by_cases space : c = ' '
  · rw [space]
    exact stands_space double
  · exact stands_visible (isVisible_of_ne narrow space) mark slash

theorem stands_escape {w : List Char} (narrow : ∀ c ∈ w, IsNarrow c)
    (read : ∀ fuel m rest, escape fuel ⟨w ++ rest, m⟩ = .ok ([n], ⟨rest, m.right w.length⟩)) :
    Stands true ('\\' :: w) n := by
  have slash : IsNarrow '\\' := by decide
  refine stands_of_step (List.cons_ne_nil _ _) (List.forall_mem_cons.mpr ⟨slash, narrow⟩) ?_
  intro fuel m rest more last later
  have step := Input.step_narrow slash (w ++ rest) m
  have here := read fuel (m.right 1) rest
  rw [Mark.right_right, Nat.add_comm] at here
  have other : (isBlank '\\' || isBreak '\\') = false := by decide
  simp only [List.cons_append, quotedScalar, other, step, here]
  rw [List.length_cons] at later
  simp [later]

theorem stands_short (short : shortEscape? c = some n) (narrow : IsNarrow c) :
    Stands true ['\\', c] n := by
  apply stands_escape (List.forall_mem_singleton.mpr narrow)
  intro fuel m rest
  have step := Input.step_narrow narrow rest m
  simp only [List.singleton_append, escape, short, step]
  rfl

theorem escapeWidth?_cases {width : Nat} (wide : escapeWidth? c = some width) :
    IsNarrow c ∧ shortEscape? c = none ∧ 0 < width := by
  unfold escapeWidth? at wide
  split at wide
  all_goals cases wide
  all_goals exact ⟨by decide, rfl, by decide⟩

theorem stands_hex {digit : Nat → Char} {width : Nat} (wide : escapeWidth? c = some width)
    (spells : ∀ d < 16, Text.digitValue? (digit d) = some d) (narrow : ∀ d < 16, IsNarrow (digit d))
    (fits : n < 16 ^ width) (point : n < 0x110000) :
    Stands true ('\\' :: c :: Text.hex digit width n) n := by
  obtain ⟨first, long, some_⟩ := escapeWidth?_cases wide
  have narrows : ∀ d ∈ Text.hex digit width n, IsNarrow d := by
    intro d member
    obtain ⟨k, small, rfl⟩ := Text.mem_hex member
    exact narrow k small
  apply stands_escape (List.forall_mem_cons.mpr ⟨first, narrows⟩)
  intro fuel m rest
  have length := Text.length_hex digit width n
  have step := Input.step_narrow first (Text.hex digit width n ++ rest) m
  have skip := Input.skip_narrow narrows rest (m.right 1)
  have digits : (Text.hex digit width n ++ rest).take width = Text.hex digit width n := by
    rw [List.take_append_of_le_length (Nat.le_of_eq length.symm), List.take_of_length_le]
    exact Nat.le_of_eq length
  have value := Text.number?_hex spells some_ fits
  rw [length] at skip
  simp only [List.cons_append, escape, long, wide, step, digits, length, value, if_true,
    if_pos point, skip, Mark.right_right, List.length_cons, Nat.add_comm]

theorem stands_quote : Stands false ['\'', '\''] 0x27 := by
  have narrow : IsNarrow '\'' := by decide
  refine stands_of_step (List.cons_ne_nil _ _) (List.forall_mem_cons.mpr ⟨narrow,
    List.forall_mem_singleton.mpr narrow⟩) ?_
  intro fuel m rest more last later
  have first := Input.step_narrow narrow ('\'' :: rest) m
  have second := Input.step_narrow narrow rest (m.right 1)
  rw [Mark.right_right] at second
  have other : (isBlank '\'' || isBreak '\'') = false := by decide
  simp only [List.cons_append, List.nil_append, quotedScalar, other, first, second]
  simp only [List.length_cons, List.length_nil] at later
  simp [later]

/-! ### Whole scalars -/

abbrev Pieces := List (List Char × Nat)

def Pieces.text (pieces : Pieces) : List Char := pieces.flatMap Prod.fst

def Pieces.points (pieces : Pieces) : Text.Points := pieces.map Prod.snd

theorem Pieces.text_cons (p : List Char × Nat) (pieces : Pieces) :
    Pieces.text (p :: pieces) = p.1 ++ Pieces.text pieces := List.flatMap_cons

theorem Pieces.narrow {pieces : Pieces} (stands : ∀ p ∈ pieces, Stands double p.1 p.2) :
    ∀ c ∈ pieces.text, IsNarrow c := by
  intro c member
  obtain ⟨p, piece, member⟩ := List.mem_flatMap.mp member
  exact (stands p piece).2.1 c member

theorem finishes_close (apart : rest.head? ≠ some '\'') :
    Finishes double 1 ⟨quoteMark double :: rest, m⟩ ([], ⟨rest, m.right 1⟩) := by
  have narrow : IsNarrow '\'' := by decide
  have narrow' : IsNarrow '"' := by decide
  apply Finishes.of_succ
  intro fuel _
  cases double with
  | true =>
    have step := Input.step_narrow narrow' rest m
    simp [quoteMark, quotedScalar, step]
  | false =>
    have step := Input.step_narrow narrow rest m
    simp [quoteMark, quotedScalar, step, apart]

theorem finishes_pieces {pieces : Pieces} (stands : ∀ p ∈ pieces, Stands double p.1 p.2)
    (apart : rest.head? ≠ some '\'') :
    Finishes double (pieces.length + 1) ⟨pieces.text ++ quoteMark double :: rest, m⟩
      (pieces.points, ⟨rest, m.right (pieces.text.length + 1)⟩) := by
  induction pieces generalizing m with
  | nil => exact finishes_close apart
  | cons p pieces ih =>
    obtain ⟨⟨-, -, read⟩, later⟩ := List.forall_mem_cons.mp stands
    have closes : Closes double (Pieces.text pieces ++ quoteMark double :: rest) :=
      ⟨_, rest, rfl, Pieces.narrow later⟩
    have whole := read _ m _ _ _ closes (ih (m := m.right p.1.length) later)
    rwa [Mark.right_right, ← Nat.add_assoc, ← List.append_assoc, ← List.length_append,
      ← Pieces.text_cons] at whole

theorem Pieces.length_le {pieces : Pieces} (stands : ∀ p ∈ pieces, Stands double p.1 p.2) :
    pieces.length ≤ pieces.text.length := by
  induction pieces with
  | nil => exact Nat.le_refl 0
  | cons p pieces ih =>
    obtain ⟨⟨some_, -⟩, later⟩ := List.forall_mem_cons.mp stands
    have positive := List.length_pos_iff.mpr some_
    have rest := ih later
    rw [Pieces.text_cons, List.length_append, List.length_cons]
    omega

theorem quotedScalar_pieces {pieces : Pieces} {fuel : Nat}
    (stands : ∀ p ∈ pieces, Stands double p.1 p.2) (apart : rest.head? ≠ some '\'')
    (enough : pieces.text.length < fuel) :
    quotedScalar double fuel ⟨pieces.text ++ quoteMark double :: rest, m⟩ =
      .ok (pieces.points, ⟨rest, m.right (pieces.text.length + 1)⟩) :=
  finishes_pieces stands apart fuel (Nat.lt_of_le_of_lt (Pieces.length_le stands) enough)

/-! ### The writer's quotes -/

theorem stands_upperHex {width : Nat} (wide : escapeWidth? c = some width) (fits : n < 16 ^ width)
    (point : n < 0x110000) : Stands true ('\\' :: c :: Text.hex Text.upperDigit width n) n := by
  have narrow : ∀ d < 16, IsNarrow (Text.upperDigit d) := by decide
  exact stands_hex wide (fun d => Text.digitValue?_upperDigit) narrow fits point

theorem stands_ite {p : Prop} [Decidable p] {v w : List Char}
    (yes : p → Stands double v n) (no : ¬ p → Stands double w n) :
    Stands double (if p then v else w) n := by
  by_cases h : p
  · rw [if_pos h]
    exact yes h
  · rw [if_neg h]
    exact no h

theorem stands_escapeDouble (c : Char) : Stands true (escapeDouble c) c.toNat := by
  have small := Text.toNat_lt c
  refine stands_ite (fun mark => ?_) fun mark => ?_
  · rcases mark with rfl | rfl <;> exact stands_short rfl (by decide)
  rw [not_or] at mark
  refine stands_ite (fun narrow => ?_) fun _ => ?_
  · exact stands_narrow narrow mark.1 fun _ => mark.2
  iterate 13
    refine stands_ite (fun value => value ▸ stands_short rfl (by decide)) fun _ => ?_
  refine stands_ite (fun short => stands_upperHex rfl (by omega) small) fun _ => ?_
  refine stands_ite (fun short => stands_upperHex rfl (by omega) small) fun _ => ?_
  exact stands_upperHex rfl (by omega) small

theorem stands_escapeSingle (narrow : IsNarrow c) : Stands false (escapeSingle c) c.toNat := by
  refine stands_ite (fun quote => ?_) fun other => stands_narrow narrow other nofun
  rw [quote]
  exact stands_quote

end ExprLexer.Yaml
