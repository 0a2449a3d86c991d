import ExprLexer.Scan.Gap

/-!
# Gaps as a grammar

`IsGap` says which fillers may stand before a text, without a reader. `gap_append` and `isGap_gap`
show that `gap` finds just the fillers after which no filler starts.
-/

namespace ExprLexer

def closingMark : List Char := ['*', '/']

theorem closingMark_infix_cons {c : Char} {t : List Char} :
    closingMark <:+: c :: t ↔ (c = '*' ∧ t.head? = some '/') ∨ closingMark <:+: t := by
  rw [List.infix_cons_iff]
  refine or_congr ?_ Iff.rfl
  cases t <;> simp [closingMark, eq_comm]

/-! ### Runs of one class of characters -/

theorem takeWhile_append {p : Char → Bool} {run rest : List Char} (inside : ∀ c ∈ run, p c = true)
    (stop : ∀ c ∈ rest.head?, p c = false) : (run ++ rest).takeWhile p = run := by
  rw [List.takeWhile_append_of_pos inside]
  cases rest with
  | nil => simp
  | cons c rest => simp [stop c rfl]

theorem dropWhile_append {p : Char → Bool} {run rest : List Char} (inside : ∀ c ∈ run, p c = true)
    (stop : ∀ c ∈ rest.head?, p c = false) : (run ++ rest).dropWhile p = rest := by
  rw [List.dropWhile_append_of_pos inside]
  cases rest with
  | nil => rfl
  | cons c rest => simp [stop c rfl]

theorem mem_takeWhile {p : Char → Bool} {s : List Char} : ∀ c ∈ s.takeWhile p, p c = true :=
  List.all_eq_true.mp List.all_takeWhile

theorem head?_dropWhile {p : Char → Bool} {s : List Char} {c : Char}
    (head : c ∈ (s.dropWhile p).head?) : p c = false := by
  have stopped := List.head?_dropWhile_not p s
  rwa [Option.mem_def.mp head] at stopped

/-! ### Block comments -/

theorem closeComment_cons {c : Char} {t : List Char} (notMark : ¬(c = '*' ∧ t.head? = some '/')) :
    closeComment (c :: t) = (closeComment t).map fun (body, after) => (c :: body, after) := by
  rw [closeComment]
  rintro after rfl rfl
  exact notMark ⟨rfl, rfl⟩

theorem head?_append_star (body after : List Char) :
    (body ++ '*' :: after).head? = (body ++ ['*']).head? := by
  cases body <;> rfl

/-- A comment is closed by the first mark behind its opening. -/
theorem closeComment_append {body after : List Char} (first : ¬ closingMark <:+: body ++ ['*']) :
    closeComment (body ++ '*' :: '/' :: after) = some (body, after) := by
  induction body with
  | nil => rfl
  | cons c body ih =>
    rw [List.cons_append, closingMark_infix_cons, not_or] at first
    have notMark : ¬(c = '*' ∧ (body ++ '*' :: '/' :: after).head? = some '/') := by
      rintro ⟨star, slash⟩
      rw [head?_append_star] at slash
      exact first.1 ⟨star, slash⟩
    rw [List.cons_append, closeComment_cons notMark, ih first.2]
    rfl

theorem closeComment_first {s body after : List Char} (h : closeComment s = some (body, after)) :
    ¬ closingMark <:+: body ++ ['*'] := by
  induction s generalizing body with
  | nil => simp [closeComment] at h
  | cons c t ih =>
    by_cases mark : c = '*' ∧ t.head? = some '/'
    · obtain ⟨rfl, slash⟩ := mark
      obtain ⟨t, rfl⟩ := List.head?_eq_some_iff.mp slash
      simp only [closeComment, Option.some.injEq, Prod.mk.injEq] at h
      rw [← h.1]
      decide
    · rw [closeComment_cons mark] at h
      obtain ⟨⟨rest, end_⟩, read, same⟩ := Option.map_eq_some_iff.mp h
      simp only [Prod.mk.injEq] at same
      obtain ⟨rfl, rfl⟩ := same
      rw [List.cons_append, closingMark_infix_cons, not_or]
      refine ⟨?_, ih read⟩
      rintro ⟨star, slash⟩
      refine mark ⟨star, ?_⟩
      rw [closeComment_eq read]
      exact (head?_append_star rest _).trans slash

theorem closeComment_eq_none_iff {s : List Char} :
    closeComment s = none ↔ ¬ closingMark <:+: s := by
  induction s with
  | nil => simp [closeComment, closingMark]
  | cons c t ih =>
    rw [closingMark_infix_cons, not_or, ← ih]
    by_cases mark : c = '*' ∧ t.head? = some '/'
    · obtain ⟨rfl, slash⟩ := mark
      obtain ⟨t, rfl⟩ := List.head?_eq_some_iff.mp slash
      simp [closeComment]
    · simp [closeComment_cons mark, mark]

/-! ### Fillers -/

namespace Filler

/-- A line comment stays on its line, and a block comment ends at the first mark behind its
opening. -/
def WellFormed : Filler → Prop
  | blank c => Text.isBlank c
  | lineComment body => '\n' ∉ body
  | blockComment body => ¬ closingMark <:+: body ++ ['*']
  | openComment body => ¬ closingMark <:+: body

instance : (f : Filler) → Decidable f.WellFormed
  | blank c => inferInstanceAs (Decidable (Text.isBlank c = true))
  | lineComment body => inferInstanceAs (Decidable ('\n' ∉ body))
  | blockComment body => inferInstanceAs (Decidable (¬ closingMark <:+: body ++ ['*']))
  | openComment body => inferInstanceAs (Decidable (¬ closingMark <:+: body))

/-- The texts before which a filler may end: a line comment runs to a line feed or to the end, and
an open comment to the end. -/
def EndsBefore : Filler → List Char → Prop
  | lineComment _, rest => rest = [] ∨ rest.head? = some '\n'
  | openComment _, rest => rest = []
  | _, _ => True

end Filler

def OpensComment (s : List Char) : Prop := ['/', '/'] <+: s ∨ ['/', '*'] <+: s

theorem opensComment_cons {c : Char} {t : List Char} :
    OpensComment (c :: t) ↔ c = '/' ∧ (t.head? = some '/' ∨ t.head? = some '*') := by
  cases t <;> simp [OpensComment, eq_comm, ← and_or_left]

theorem not_opensComment_of_ne {c : Char} {t : List Char} (h : c ≠ '/') : ¬ OpensComment (c :: t) :=
  fun opens => h (opensComment_cons.mp opens).1

theorem filler?_lineComment (t : List Char) :
    filler? ('/' :: '/' :: t) =
      some (.lineComment (t.takeWhile (· ≠ '\n')), t.dropWhile (· ≠ '\n')) := rfl

theorem filler?_blockComment (t : List Char) :
    filler? ('/' :: '*' :: t) =
      match closeComment t with
      | some (body, after) => some (.blockComment body, after)
      | none => some (.openComment t, []) := rfl

theorem filler?_cons {c : Char} {t : List Char} (plain : ¬ OpensComment (c :: t)) :
    filler? (c :: t) = if Text.isBlank c then some (.blank c, t) else none := by
  rw [opensComment_cons] at plain
  unfold filler?
  split
  · next same =>
    obtain ⟨rfl, rfl⟩ := List.cons.inj same
    simp at plain
  · next same =>
    obtain ⟨rfl, rfl⟩ := List.cons.inj same
    simp at plain
  · next same =>
    obtain ⟨rfl, rfl⟩ := List.cons.inj same
    rfl
  · next same => cases same

theorem ne_slash_of_isBlank {c : Char} (blank : Text.isBlank c) : c ≠ '/' := by
  rintro rfl
  revert blank
  decide

theorem filler?_append {f : Filler} {rest : List Char} (formed : f.WellFormed)
    (ends : f.EndsBefore rest) : filler? (f.text ++ rest) = some (f, rest) := by
  cases f with
  | blank c =>
    have plain : ¬ OpensComment (c :: rest) := not_opensComment_of_ne (ne_slash_of_isBlank formed)
    rw [Filler.text, List.singleton_append, filler?_cons plain]
    exact if_pos formed
  | lineComment body =>
    have inside : ∀ c ∈ body, decide (c ≠ '\n') = true := by
      intro c member
      exact decide_eq_true fun same => formed (same ▸ member)
    have stop : ∀ c ∈ rest.head?, decide (c ≠ '\n') = false := by
      rintro c head
      rcases ends with rfl | feed
      · cases head
      · obtain rfl := Option.some.inj (feed.symm.trans head)
        rfl
    rw [Filler.text, List.cons_append, List.cons_append, filler?_lineComment,
      takeWhile_append inside stop, dropWhile_append inside stop]
  | blockComment body =>
    have same : Filler.text (.blockComment body) ++ rest =
        '/' :: '*' :: (body ++ '*' :: '/' :: rest) := by simp [Filler.text]
    rw [same, filler?_blockComment, closeComment_append formed]
  | openComment body =>
    obtain rfl : rest = [] := ends
    rw [Filler.text, List.append_nil, filler?_blockComment, closeComment_eq_none_iff.mpr formed]

theorem filler?_eq_none_iff {c : Char} {t : List Char} :
    filler? (c :: t) = none ↔ ¬ Text.isBlank c ∧ ¬ OpensComment (c :: t) := by
  by_cases opens : OpensComment (c :: t)
  · have some_ : filler? (c :: t) ≠ none := by
      obtain ⟨rfl, slash | star⟩ := opensComment_cons.mp opens
      · obtain ⟨t, rfl⟩ := List.head?_eq_some_iff.mp slash
        simp [filler?_lineComment]
      · obtain ⟨t, rfl⟩ := List.head?_eq_some_iff.mp star
        rw [filler?_blockComment]
        split <;> simp
    simp [opens, some_]
  · simp [filler?_cons opens, opens]

theorem filler?_grammar {s rest : List Char} {f : Filler} (h : filler? s = some (f, rest)) :
    f.WellFormed ∧ f.EndsBefore rest := by
  cases s with
  | nil => cases h
  | cons c t =>
    by_cases opens : OpensComment (c :: t)
    · obtain ⟨rfl, slash | star⟩ := opensComment_cons.mp opens
      · obtain ⟨t, rfl⟩ := List.head?_eq_some_iff.mp slash
        simp only [filler?_lineComment, Option.some.injEq, Prod.mk.injEq] at h
        obtain ⟨rfl, rfl⟩ := h
        refine ⟨fun feed => ?_, ?_⟩
        · have kept := mem_takeWhile '\n' feed
          simp at kept
        · cases head : (t.dropWhile (· ≠ '\n')).head? with
          | none => exact Or.inl (List.head?_eq_none_iff.mp head)
          | some c =>
            have stopped := head?_dropWhile head
            simp only [decide_eq_false_iff_not, Decidable.not_not] at stopped
            exact Or.inr (stopped ▸ head)
      · obtain ⟨t, rfl⟩ := List.head?_eq_some_iff.mp star
        rw [filler?_blockComment] at h
        split at h
        · next body after read =>
          simp only [Option.some.injEq, Prod.mk.injEq] at h
          obtain ⟨rfl, rfl⟩ := h
          exact ⟨closeComment_first read, trivial⟩
        · next read =>
          simp only [Option.some.injEq, Prod.mk.injEq] at h
          obtain ⟨rfl, rfl⟩ := h
          exact ⟨closeComment_eq_none_iff.mp read, rfl⟩
    · rw [filler?_cons opens] at h
      split at h
      · next blank =>
        simp only [Option.some.injEq, Prod.mk.injEq] at h
        obtain ⟨rfl, rfl⟩ := h
        exact ⟨blank, trivial⟩
      · cases h

/-! ### Gaps -/

/-- The fillers `fs` may stand before the text `rest`. -/
def IsGap : List Filler → List Char → Prop
  | [], _ => True
  | f :: fs, rest => f.WellFormed ∧ f.EndsBefore (gapText fs ++ rest) ∧ IsGap fs rest

theorem gapText_cons (f : Filler) (fs : List Filler) : gapText (f :: fs) = f.text ++ gapText fs :=
  List.flatMap_cons

theorem gapText_eq_nil {fs : List Filler} (h : gapText fs = []) : fs = [] := by
  cases fs with
  | nil => rfl
  | cons f fs =>
    rw [gapText_cons, List.append_eq_nil_iff] at h
    exact absurd h.1 f.text_ne_nil

theorem gap_of_filler? {s rest : List Char} {f : Filler} (h : filler? s = some (f, rest)) :
    gap s = (f :: (gap rest).1, (gap rest).2) := by
  rw [gap]
  split
  · next read =>
    obtain ⟨rfl, rfl⟩ := Prod.mk.inj (Option.some.inj (h.symm.trans read))
    rfl
  · next read => rw [h] at read; contradiction

theorem gap_of_none {s : List Char} (h : filler? s = none) : gap s = ([], s) := by
  rw [gap]
  split
  · next read => rw [h] at read; contradiction
  · rfl

theorem gap_append {fs : List Filler} {rest : List Char} (grammar : IsGap fs rest)
    (stop : filler? rest = none) : gap (gapText fs ++ rest) = (fs, rest) := by
  induction fs with
  | nil => exact gap_of_none stop
  | cons f fs ih =>
    obtain ⟨formed, ends, grammar⟩ := grammar
    rw [gapText_cons, List.append_assoc, gap_of_filler? (filler?_append formed ends), ih grammar]

theorem isGap_gap (s : List Char) : IsGap (gap s).1 (gap s).2 ∧ filler? (gap s).2 = none := by
  fun_induction gap s with
  | case1 s f rest read fs after found ih =>
    have covered := gapText_gap rest
    rw [found] at covered ih
    obtain ⟨formed, ends⟩ := filler?_grammar read
    exact ⟨⟨formed, covered.symm ▸ ends, ih.1⟩, ih.2⟩
  | case2 s read => exact ⟨trivial, read⟩

end ExprLexer
