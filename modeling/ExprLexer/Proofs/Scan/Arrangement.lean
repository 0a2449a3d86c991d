import ExprLexer.Proofs.Position
import ExprLexer.Proofs.Scan.Tiling

/-!
# Arrangements

Lexemes may be arranged with gaps around them in any order. The scan finds them again, at their
places, unless two neighbours clash (`scan_eq_tokens_iff`).
-/

namespace ExprLexer

/-- The filler is closed when the fillers `fs` of the same gap follow it. At the end of the source
(`final`) the end closes a line comment too. -/
def Filler.ClosedBefore (final : Bool) (fs : List Filler) : Filler → Prop
  | lineComment _ => fs.head? = some (.blank '\n') ∨ final = true ∧ fs = []
  | openComment _ => False
  | _ => True

/-- Fillers that make a gap by themselves, whatever lexeme follows them. -/
def ClosedGap (final : Bool) : List Filler → Prop
  | [] => True
  | f :: fs => f.WellFormed ∧ f.ClosedBefore final fs ∧ ClosedGap final fs

def Filler.IsComment : Filler → Prop
  | blank _ => False
  | _ => True

namespace Lexeme

/-- Read side by side, the lexemes `l` and `m` would not come out as two. -/
def Merges (l m : Lexeme) : Prop :=
  match l.kind with
  | .keyword | .identifier => ∃ c ∈ m.text.head?, isWordChar c = true
  | .literal => (∃ c ∈ m.text.head?, c.isDigit = true) ∨ '.' ∉ l.text ∧ m = ⟨.unknown, ['.']⟩
  | .operator => l.text = ['/'] ∧ (m = ⟨.operator, ['/']⟩ ∨ m = ⟨.operator, ['*']⟩)
  | _ => False

def MeetsComment (l : Lexeme) (gap : List Filler) : Prop :=
  l = ⟨.operator, ['/']⟩ ∧ ∃ f ∈ gap.head?, f.IsComment

def Clashes (l : Lexeme) : Tiling → Prop
  | .tile [] m _ => l.Merges m
  | .tile gap _ _ | .last gap => l.MeetsComment gap

end Lexeme

namespace Tiling

def Arranged : Tiling → Prop
  | last gap => ClosedGap true gap
  | tile gap l rest => ClosedGap false gap ∧ l.Fits ∧ rest.Arranged

def Separated : Tiling → Prop
  | last _ => True
  | tile _ l rest => ¬ l.Clashes rest ∧ rest.Separated

end Tiling

/-! ### Closed gaps -/

theorem Filler.endsBefore_of_closed {final : Bool} {f : Filler} {fs : List Filler}
    {rest : List Char} (closed : f.ClosedBefore final fs) (end_ : final = true → rest = []) :
    f.EndsBefore (gapText fs ++ rest) := by
  cases f with
  | lineComment body =>
    rcases closed with feed | ⟨last, rfl⟩
    · obtain ⟨fs, rfl⟩ := List.head?_eq_some_iff.mp feed
      exact Or.inr rfl
    · exact Or.inl (end_ last)
  | openComment body => exact closed.elim
  | _ => trivial

theorem isGap_of_closed {final : Bool} {gap : List Filler} {rest : List Char}
    (closed : ClosedGap final gap) (end_ : final = true → rest = []) : IsGap gap rest := by
  induction gap with
  | nil => trivial
  | cons f fs ih =>
    obtain ⟨formed, ends, closed⟩ := closed
    exact ⟨formed, Filler.endsBefore_of_closed ends end_, ih closed⟩

/-! ### Neighbours -/

namespace Lexeme

theorem Fits.starts_iff {m : Lexeme} {c d : Char} {cs : List Char} (fits : m.Fits)
    (text : m.text = c :: cs) (symbol : isWordChar d = false) : c = d ↔ m = ofSymbol d := by
  constructor
  · rintro rfl
    exact fits.eq_ofSymbol text symbol
  · rintro rfl
    exact (List.cons.inj text).1.symm

theorem goesOn_iff_merges (l : Lexeme) {m : Lexeme} {c : Char} {cs : List Char} (fits : m.Fits)
    (text : m.text = c :: cs) : l.GoesOn c ↔ l.Merges m := by
  have point : c = '.' ↔ m = ⟨.unknown, ['.']⟩ := fits.starts_iff text rfl
  have slash : c = '/' ↔ m = ⟨.operator, ['/']⟩ := fits.starts_iff text rfl
  have star : c = '*' ↔ m = ⟨.operator, ['*']⟩ := fits.starts_iff text rfl
  obtain ⟨kind, spelled⟩ := l
  cases kind <;> simp [GoesOn, Merges, text, ← point, ← slash, ← star, and_comm]

theorem not_goesOn_blank {l : Lexeme} {c : Char} (blank : Text.isBlank c = true) :
    ¬ l.GoesOn c := by
  have word : isWordChar c = false := by
    by_contra word
    rw [Bool.not_eq_false] at word
    rw [not_isBlank_of_isWordChar word] at blank
    contradiction
  have digit : c.isDigit = false := (Bool.or_eq_false_iff.mp word).2
  have marks : c ≠ '.' ∧ c ≠ '/' ∧ c ≠ '*' := by
    refine ⟨?_, ?_, ?_⟩ <;> rintro rfl <;> revert blank <;> decide
  obtain ⟨kind, spelled⟩ := l
  cases kind <;> simp [GoesOn, word, digit, marks]

theorem goesOn_slash_iff {l : Lexeme} : l.GoesOn '/' ↔ l = ⟨.operator, ['/']⟩ := by
  have word : isWordChar '/' = false := rfl
  have digit : '/'.isDigit = false := rfl
  obtain ⟨kind, spelled⟩ := l
  cases kind <;> simp [GoesOn, word, digit]

/-- In front of a gap that is not empty, only a slash in front of a comment goes on. -/
theorem endsBefore_gap_iff (l : Lexeme) {f : Filler} (fs : List Filler) (rest : List Char)
    (formed : f.WellFormed) :
    l.EndsBefore (gapText (f :: fs) ++ rest) ↔ ¬ l.MeetsComment (f :: fs) := by
  rw [gapText_cons, EndsBefore, MeetsComment, ← goesOn_slash_iff]
  cases f with
  | blank c => simp [Filler.text, Filler.IsComment, not_goesOn_blank formed]
  | _ => simp [Filler.text, Filler.IsComment]

theorem endsBefore_iff {l : Lexeme} {rest : Tiling} (arranged : rest.Arranged) :
    l.EndsBefore rest.text ↔ ¬ l.Clashes rest := by
  cases rest with
  | last gap =>
    cases gap with
    | nil => simp [EndsBefore, Clashes, MeetsComment, Tiling.text, gapText]
    | cons f fs =>
      have here := endsBefore_gap_iff l fs [] arranged.1
      rwa [List.append_nil] at here
  | tile gap m rest =>
    obtain ⟨closed, fits, -⟩ := arranged
    cases gap with
    | nil =>
      obtain ⟨c, cs, text, -⟩ := fits.head
      have merges := goesOn_iff_merges l fits text
      simp [EndsBefore, Clashes, Tiling.text, gapText, text, merges]
    | cons f fs => exact endsBefore_gap_iff l fs _ closed.1

end Lexeme

namespace Tiling

theorem exact_iff_separated {L : Tiling} (arranged : L.Arranged) : L.Exact ↔ L.Separated := by
  induction L with
  | last gap => exact iff_of_true (isGap_of_closed arranged fun _ => rfl) trivial
  | tile gap l rest ih =>
    obtain ⟨closed, fits, arranged⟩ := arranged
    have isGap : IsGap gap (l.text ++ rest.text) := isGap_of_closed closed (by simp)
    simp only [Exact, Separated, isGap, fits, true_and, Lexeme.endsBefore_iff arranged, ih arranged]

theorem position_eq_of_located {k k' : Kind} {s s' : List Char} {p p' : Position}
    (same : Token.located k s p = Token.located k' s' p') : k = k' ∧ s = s' ∧ p = p' := by
  simp only [Token.located, Token.mk.injEq, String.ofList_inj, Int.natCast_inj] at same
  obtain ⟨kind, text, line, column⟩ := same
  exact ⟨kind, text, by cases p; cases p'; simp_all⟩

/-- An arrangement with the tokens of the exact tiling of its text has no clash: the lexemes
stand at the same offsets, so what follows each of them is the same. -/
theorem separated_of_tokens {L M : Tiling} {p : Position} (arranged : L.Arranged)
    (exact_ : M.Exact) (text : L.text = M.text) (tokens : L.tokens p = M.tokens p) :
    L.Separated := by
  induction L generalizing M p with
  | last gap => trivial
  | tile gap l rest ih =>
    cases M with
    | last gap' => cases tokens
    | tile gap' l' rest' =>
      obtain ⟨-, fits, arranged⟩ := arranged
      obtain ⟨-, -, ends, exact_⟩ := exact_
      obtain ⟨first, later⟩ := List.cons.inj tokens
      obtain ⟨kind, spelled, place⟩ := position_eq_of_located first
      obtain rfl : l = l' := by cases l; cases l'; simp_all
      -- Both gaps are prefixes of the same text and end at the same place.
      have gaps : gapText gap = gapText gap' := by
        have left : gapText gap <+: (tile gap l rest).text := List.prefix_append _ _
        have right : gapText gap' <+: (tile gap l rest).text := by
          rw [text]
          exact List.prefix_append _ _
        exact Position.after_prefix_inj left right place
      have behind : rest.text = rest'.text := by
        simpa only [Tiling.text, gaps, List.append_cancel_left_eq] using text
      rw [← place] at later
      rw [← behind] at ends
      exact ⟨(Lexeme.endsBefore_iff arranged).mp ends, ih arranged exact_ behind later⟩

end Tiling

/-- Lexemes of the language, arranged with closed gaps around them, are scanned as just these
lexemes at their places if and only if no lexeme clashes with its neighbour. -/
theorem scan_eq_tokens_iff {L : Tiling} (arranged : L.Arranged) :
    (scan (String.ofList L.text)).1 = L.tokens .start ↔ L.Separated := by
  constructor
  · intro tokens
    obtain ⟨M, text, exact_⟩ := Tiling.exists_exact L.text
    have found := Tiling.scan_eq (text.trans String.toList_ofList.symm) exact_
    rw [found] at tokens
    exact Tiling.separated_of_tokens arranged exact_ text.symm tokens.symm
  · intro separated
    have exact_ := (Tiling.exact_iff_separated arranged).mpr separated
    rw [Tiling.scan_eq String.toList_ofList.symm exact_]

theorem scan_eq_tokens_iff_comments :
    let L : Tiling := .tile [] ⟨.identifier, ['a', 'b']⟩ (.tile [.blockComment ['*'], .blank ' ']
      ⟨.operator, ['/']⟩ (.tile [] ⟨.literal, ['2', '.']⟩ (.last [.lineComment []])))
    L.Arranged ∧ L.Separated ∧ (scan (String.ofList L.text)).1 = L.tokens .start := by
  intro L
  have arranged : L.Arranged :=
    ⟨trivial, .identifier rfl (List.forall_mem_singleton.mpr rfl) (by decide),
      ⟨by decide, trivial, rfl, trivial, trivial⟩, .operator (by decide),
      trivial, @Lexeme.Fits.decimal ['2'] [] (by decide) (List.forall_mem_singleton.mpr rfl) nofun,
      ⟨by decide, Or.inr ⟨rfl, rfl⟩, trivial⟩⟩
  have separated : L.Separated := by
    simp [L, Tiling.Separated, Lexeme.Clashes, Lexeme.Merges, Lexeme.MeetsComment]
  exact ⟨arranged, separated, (scan_eq_tokens_iff arranged).mpr separated⟩

end ExprLexer
