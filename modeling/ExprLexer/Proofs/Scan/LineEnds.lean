import ExprLexer.Proofs.Scan.Respacing

/-!
# Line ends

A line may end with a carriage return and a line feed. The carriage return is blank space or part of
a comment, and the line feed takes back the column that it is wide, so the scan does not tell such a
line end from a line feed alone (`scan_unifyLineEnds`).
-/

namespace ExprLexer

/-- The text without the carriage returns that stand directly in front of a line feed. The character
`next` follows the text. -/
def unifyBefore (next : Option Char) : List Char → List Char
  | [] => []
  | c :: cs =>
    if c = '\r' ∧ cs.head?.or next = some '\n' then unifyBefore next cs
    else c :: unifyBefore next cs

/-- The text with every line end of two characters made a line feed. -/
def unifyLineEnds (cs : List Char) : List Char := unifyBefore none cs

example : unifyLineEnds "a\r\n\r\r\n\rb\r".toList = "a\n\r\n\rb\r".toList := by decide

def Filler.unify (next : Option Char) : Filler → List Filler
  | blank c => (unifyBefore next [c]).map .blank
  | lineComment body => [lineComment (unifyBefore next body)]
  | blockComment body => [blockComment (unifyBefore (some '*') body)]
  | openComment body => [openComment (unifyBefore next body)]

def unifyGap (next : Option Char) : List Filler → List Filler
  | [] => []
  | f :: fs => f.unify ((gapText fs).head?.or next) ++ unifyGap next fs

variable {next : Option Char} {cs : List Char}

/-! ### Texts -/

theorem unifyBefore_append (next : Option Char) (a b : List Char) :
    unifyBefore next (a ++ b) = unifyBefore (b.head?.or next) a ++ unifyBefore next b := by
  induction a with
  | nil => rfl
  | cons c a ih =>
    rw [List.cons_append, unifyBefore, unifyBefore, List.head?_append, Option.or_assoc, ih]
    split <;> rfl

theorem unifyBefore_keep {c : Char} (keep : c ≠ '\r') (next : Option Char) (cs : List Char) :
    unifyBefore next (c :: cs) = c :: unifyBefore next cs :=
  if_neg fun return_ => keep return_.1

theorem unifyBefore_eq_self (plain : ∀ c ∈ cs, c ≠ '\r') : unifyBefore next cs = cs := by
  induction cs with
  | nil => rfl
  | cons c cs ih =>
    obtain ⟨first, later⟩ := List.forall_mem_cons.mp plain
    rw [unifyBefore_keep first, ih later]

theorem unifyBefore_other (other : next ≠ some '\n') (cs : List Char) :
    unifyBefore next cs = unifyLineEnds cs := by
  induction cs with
  | nil => rfl
  | cons c cs ih =>
    have feed : cs.head?.or next = some '\n' ↔ cs.head?.or none = some '\n' := by
      cases cs with
      | nil => simp [other]
      | cons d cs => rfl
    rw [unifyLineEnds, unifyBefore, unifyBefore, ih]
    simp only [feed]
    rfl

theorem unifyBefore_sublist (next : Option Char) (cs : List Char) :
    (unifyBefore next cs).Sublist cs := by
  induction cs with
  | nil => exact List.Sublist.refl _
  | cons c cs ih =>
    rw [unifyBefore]
    split
    · exact ih.cons c
    · exact ih.cons_cons c

/-- A carriage return gives way to the line feed behind it only. -/
theorem head?_unifyBefore {c : Char} (head : c ∈ (unifyBefore next cs).head?) :
    c ∈ cs.head? ∨ c = '\n' := by
  induction cs with
  | nil => cases head
  | cons d cs ih =>
    rw [unifyBefore] at head
    split at head
    · next feed =>
      rcases ih head with second | same
      · rw [Option.mem_def.mp second] at feed
        exact .inr (Option.some.inj feed.2)
      · exact .inr same
    · exact .inl head

theorem head?_unifyBefore_feed {rest : List Char} (next : Option Char)
    (feed : (cs ++ rest).head? = some '\n') : (unifyBefore next cs ++ rest).head? = some '\n' := by
  cases cs with
  | nil => exact feed
  | cons c cs =>
    obtain rfl : c = '\n' := Option.some.inj feed
    rw [unifyBefore_keep (by decide)]
    rfl

/-- Dropping carriage returns makes no closing mark. -/
theorem closingMark_of_unifyBefore (mark : closingMark <:+: unifyBefore next cs) :
    closingMark <:+: cs := by
  induction cs with
  | nil => exact mark
  | cons c cs ih =>
    rw [closingMark_infix_cons]
    rw [unifyBefore] at mark
    split at mark
    · exact .inr (ih mark)
    · rcases closingMark_infix_cons.mp mark with ⟨star, slash⟩ | later
      · rcases head?_unifyBefore (Option.mem_def.mpr slash) with same | feed
        · exact .inl ⟨star, same⟩
        · exact absurd feed (by decide)
      · exact .inr (ih later)

theorem Position.after_unifyLineEnds (cs : List Char) (p : Position) :
    p.after (unifyLineEnds cs) = p.after cs := by
  induction cs generalizing p with
  | nil => rfl
  | cons c cs ih =>
    rw [unifyLineEnds, unifyBefore]
    split
    · next dropped =>
      obtain ⟨rfl, feed⟩ := dropped
      rw [Option.or_none] at feed
      obtain ⟨cs, rfl⟩ := List.head?_eq_some_iff.mp feed
      exact ih p
    · exact ih (p.next c)

/-! ### Gaps -/

theorem Filler.gapText_unify (next : Option Char) (f : Filler) :
    gapText (f.unify next) = unifyBefore next f.text := by
  have slashes : ∀ (c : Char) (cs : List Char), c ≠ '\r' →
      unifyBefore next ('/' :: c :: cs) = '/' :: c :: unifyBefore next cs := by
    intro c cs keep
    rw [unifyBefore_keep (by decide), unifyBefore_keep keep]
  cases f with
  | blank c => exact gapText_blanks _
  | blockComment body =>
    have closed : unifyBefore next ['*', '/'] = ['*', '/'] := by
      rw [unifyBefore_keep (by decide), unifyBefore_keep (by decide), unifyBefore]
    rw [text, slashes '*' _ (by decide), unifyBefore_append, closed, unify, gapText_cons, text]
    exact List.append_nil _
  | lineComment body =>
    rw [text, slashes '/' _ (by decide), unify, gapText_cons, text]
    exact List.append_nil _
  | openComment body =>
    rw [text, slashes '*' _ (by decide), unify, gapText_cons, text]
    exact List.append_nil _

theorem gapText_unifyGap (next : Option Char) (gap : List Filler) :
    gapText (unifyGap next gap) = unifyBefore next (gapText gap) := by
  induction gap with
  | nil => rfl
  | cons f fs ih =>
    rw [unifyGap, gapText_append, Filler.gapText_unify, ih, gapText_cons, unifyBefore_append]

theorem unifyGap_append (next : Option Char) (fs gs : List Filler) :
    unifyGap next (fs ++ gs) = unifyGap ((gapText gs).head?.or next) fs ++ unifyGap next gs := by
  induction fs with
  | nil => rfl
  | cons f fs ih =>
    rw [List.cons_append, unifyGap, unifyGap, ih, gapText_append, List.head?_append,
      Option.or_assoc, List.append_assoc]

theorem Filler.isGap_unify {f : Filler} {rest rest' : List Char} (formed : f.WellFormed)
    (ends : f.EndsBefore rest) (same : rest = [] → rest' = [])
    (feed : rest.head? = some '\n' → rest'.head? = some '\n') (next : Option Char) :
    IsGap (f.unify next) rest' := by
  cases f with
  | blank c =>
    refine isGap_blanks fun d member => ?_
    obtain rfl := List.mem_singleton.mp ((unifyBefore_sublist next [c]).subset member)
    exact formed
  | lineComment body =>
    exact ⟨fun member => formed ((unifyBefore_sublist next body).subset member),
      ends.imp same feed, trivial⟩
  | blockComment body =>
    have whole : unifyBefore next (body ++ ['*']) = unifyBefore (some '*') body ++ ['*'] := by
      rw [unifyBefore_append, unifyBefore_keep (by decide)]
      rfl
    exact ⟨fun mark => formed (closingMark_of_unifyBefore (whole ▸ mark)), trivial, trivial⟩
  | openComment body =>
    exact ⟨fun mark => formed (closingMark_of_unifyBefore mark), same ends, trivial⟩

theorem IsGap.unify {gap : List Filler} {rest : List Char} (isGap : IsGap gap rest)
    (next : Option Char) : IsGap (unifyGap next gap) rest := by
  induction gap with
  | nil => trivial
  | cons f fs ih =>
    obtain ⟨formed, ends, isGap⟩ := isGap
    refine isGap_append.mpr ⟨Filler.isGap_unify formed ends ?_ ?_ _, ih isGap⟩
    · intro nothing
      obtain ⟨none, rfl⟩ := List.append_eq_nil_iff.mp nothing
      rw [gapText_unifyGap, none]
      rfl
    · rw [gapText_unifyGap]
      exact head?_unifyBefore_feed next

theorem unifyGap_respaces : Respaces (unifyGap none) where
  isGap := fun isGap => isGap.unify none
  place := by
    intro gap p
    rw [gapText_unifyGap]
    exact p.after_unifyLineEnds (gapText gap)
  apart := by
    intro l gap ends c head
    rw [gapText_unifyGap] at head
    rcases head?_unifyBefore head with same | rfl
    · exact ends c same
    · exact Lexeme.not_goesOn_blank rfl

theorem gapDiagnostics_unify {gap : List Filler} (isGap : IsGap gap []) (p : Position) :
    gapDiagnostics p (unifyGap none gap) = gapDiagnostics p gap := by
  rcases Tiling.gapDiagnostics_cases isGap with none | ⟨-, closed, body, rfl, found⟩
  · have closed : ∀ body, .openComment body ∉ gap :=
      fun body member => gapDiagnostics_ne_nil member p (none p)
    have feed : IsGap gap ['\n'] := isGap.append_feed closed []
    rw [none, Tiling.gapDiagnostics_eq_nil (feed.unify _) (List.cons_ne_nil _ _)]
  · have front : IsGap closed (gapText [.openComment body] ++ [])  :=
      (isGap_append.mp isGap).1
    have quiet := Tiling.gapDiagnostics_eq_nil (front.unify (some '/')) (List.cons_ne_nil _ _) p
    have place : p.after (gapText (unifyGap (some '/') closed)) = p.after (gapText closed) := by
      rw [gapText_unifyGap, unifyBefore_other (by decide), Position.after_unifyLineEnds]
    have split : unifyGap none (closed ++ [.openComment body]) =
        unifyGap (some '/') closed ++ unifyGap none [.openComment body] := unifyGap_append _ _ _
    rw [found, split, gapDiagnostics_append, quiet, place]
    rfl

/-! ### Sources -/

theorem Tiling.text_unify {L : Tiling} (exact_ : L.Exact) :
    (L.mapGaps (unifyGap none)).text = unifyLineEnds L.text := by
  induction L with
  | last gap => exact gapText_unifyGap none gap
  | tile gap l rest ih =>
    obtain ⟨-, fits, -, exact_⟩ := exact_
    have plain : ∀ c ∈ l.text, c ≠ '\r' := by
      rintro c member rfl
      exact absurd (fits.not_isBlank _ member) (by decide)
    have other : (l.text ++ rest.text).head?.or none ≠ some '\n' := by
      obtain ⟨c, cs, spelled, solid⟩ := fits.head
      rw [spelled]
      intro feed
      obtain rfl : c = '\n' := Option.some.inj feed
      exact absurd solid (by decide)
    rw [mapGaps, text, text, ih exact_, gapText_unifyGap, unifyLineEnds, unifyLineEnds,
      unifyBefore_append none (gapText gap), unifyBefore_append none l.text,
      unifyBefore_eq_self plain, unifyBefore_other other, unifyLineEnds]

/-- A source scans as the same tokens and diagnostics, at the same places, when its line ends of two
characters give way to line feeds. -/
theorem scan_unifyLineEnds (source : String) :
    scan (String.ofList (unifyLineEnds source.toList)) = scan source := by
  obtain ⟨L, text, exact_⟩ := Tiling.exists_exact source.toList
  obtain ⟨ds, gap, q, -, isGap, told, told'⟩ :=
    Tiling.exists_told_mapGaps unifyGap_respaces exact_ .start
  have unified : (L.mapGaps (unifyGap none)).text =
      (String.ofList (unifyLineEnds source.toList)).toList := by
    rw [String.toList_ofList, ← text, Tiling.text_unify exact_]
  rw [Tiling.scan_eq text exact_, Tiling.scan_eq unified (exact_.mapGaps unifyGap_respaces),
    Tiling.tokens_mapGaps unifyGap_respaces, told, told', gapDiagnostics_unify isGap]

end ExprLexer
