import ExprLexer.Proofs.Scan.Arrangement
import ExprLexer.Proofs.Scan.Report

/-!
# Texts joined by a line feed

A text and a second one on the lines below it scan as the two scans one after the other, the second
moved down (`scan_append_feed`), if the first leaves no comment open. A line feed ends whatever the
end of the first text ends, and behind it only the line tells that there was a first text.
-/

namespace ExprLexer

def Position.down (n : Nat) (p : Position) : Position := { p with line := p.line + n }

def Token.down (n : Nat) (t : Token) : Token := { t with line := t.line + n }

def Diagnostic.down (n : Nat) (d : Diagnostic) : Diagnostic :=
  { d with position := d.position.down n }

def Diagnostic.move (f : Position → Position) (d : Diagnostic) : Diagnostic :=
  { d with position := f d.position }

namespace Tiling

/-- The tiling with more fillers in front. -/
def behind (fs : List Filler) : Tiling → Tiling
  | last gap => last (fs ++ gap)
  | tile gap l rest => tile (fs ++ gap) l rest

/-- Two tilings, with the fillers `fs` between them. -/
def join (fs : List Filler) : Tiling → Tiling → Tiling
  | last gap, M => M.behind (gap ++ fs)
  | tile gap l rest, M => tile gap l (rest.join fs M)

/-- No comment is open at the end. -/
def Closed : Tiling → Prop
  | last gap => ∀ body, .openComment body ∉ gap
  | tile _ _ rest => rest.Closed

end Tiling

/-! ### Below -/

theorem Position.down_after (n : Nat) (p : Position) (cs : List Char) :
    (p.down n).after cs = (p.after cs).down n := by
  induction cs generalizing p with
  | nil => rfl
  | cons c cs ih =>
    have step : (p.down n).next c = (p.next c).down n := by
      unfold next down
      split
      · rw [Nat.add_right_comm]
      · rfl
    rw [after_cons, after_cons, step, ih]

theorem Position.start_after_feed (cs : List Char) :
    start.after (cs ++ ['\n']) = start.down (1 + cs.count '\n') := by
  rw [start_after, ofPrefix, List.count_append, List.count_singleton_self,
    List.rtakeWhile_concat_neg (h := by decide), Nat.add_comm (cs.count '\n') 1]
  rfl

/-- What is told of a gap moves with it. -/
theorem gapDiagnostics_move {f : Position → Position} {p : Position}
    (moves : ∀ cs, (f p).after cs = f (p.after cs)) (fs : List Filler) :
    gapDiagnostics (f p) fs = (gapDiagnostics p fs).map (Diagnostic.move f) := by
  induction fs generalizing p with
  | nil => rfl
  | cons g fs ih =>
    have later : ∀ cs, (f (p.after g.text)).after cs = f ((p.after g.text).after cs) := by
      intro cs
      rw [← moves, ← Position.after_append, moves, Position.after_append]
    cases g <;> simp [gapDiagnostics, moves, ih later, Diagnostic.move]

theorem lexemeDiagnostics_move {f : Position → Position} {p : Position}
    (moves : ∀ cs, (f p).after cs = f (p.after cs)) (l : Lexeme) (rest : List Char) :
    lexemeDiagnostics (f p) l rest = (lexemeDiagnostics p l rest).map (Diagnostic.move f) := by
  unfold lexemeDiagnostics
  split
  · rfl
  · split
    · rw [moves]
      rfl
    · rfl
  · rfl

theorem gapDiagnostics_down (n : Nat) (p : Position) (fs : List Filler) :
    gapDiagnostics (p.down n) fs = (gapDiagnostics p fs).map (Diagnostic.down n) :=
  gapDiagnostics_move (p.down_after n) fs

theorem lexemeDiagnostics_down (n : Nat) (p : Position) (l : Lexeme) (rest : List Char) :
    lexemeDiagnostics (p.down n) l rest =
      (lexemeDiagnostics p l rest).map (Diagnostic.down n) :=
  lexemeDiagnostics_move (p.down_after n) l rest

namespace Tiling

theorem tokens_down (n : Nat) (p : Position) (L : Tiling) :
    L.tokens (p.down n) = (L.tokens p).map (Token.down n) := by
  induction L generalizing p with
  | last gap => rfl
  | tile gap l rest ih =>
    simp only [tokens, Position.down_after, ih, List.map_cons]
    rfl

theorem diagnostics_down (n : Nat) (p : Position) (L : Tiling) :
    L.diagnostics (p.down n) = (L.diagnostics p).map (Diagnostic.down n) := by
  induction L generalizing p with
  | last gap => exact gapDiagnostics_down n p gap
  | tile gap l rest ih =>
    simp only [diagnostics, Position.down_after, gapDiagnostics_down, lexemeDiagnostics_down, ih,
      List.map_append]

end Tiling

/-! ### In front -/

theorem gapText_append (fs gs : List Filler) : gapText (fs ++ gs) = gapText fs ++ gapText gs :=
  List.flatMap_append

theorem gapDiagnostics_append (p : Position) (fs gs : List Filler) :
    gapDiagnostics p (fs ++ gs) =
      gapDiagnostics p fs ++ gapDiagnostics (p.after (gapText fs)) gs := by
  induction fs generalizing p with
  | nil => rfl
  | cons f fs ih =>
    cases f <;> simp [gapDiagnostics, gapText_cons, Position.after_append, ih]

namespace Tiling

variable {fs : List Filler} {M : Tiling}

theorem text_behind (fs : List Filler) (M : Tiling) :
    (M.behind fs).text = gapText fs ++ M.text := by
  cases M <;> simp [behind, text, gapText_append]

theorem tokens_behind (p : Position) :
    (M.behind fs).tokens p = M.tokens (p.after (gapText fs)) := by
  cases M <;> simp [behind, tokens, gapText_append, Position.after_append]

theorem diagnostics_behind (p : Position) :
    (M.behind fs).diagnostics p =
      gapDiagnostics p fs ++ M.diagnostics (p.after (gapText fs)) := by
  cases M <;> simp [behind, diagnostics, gapDiagnostics_append, gapText_append,
    Position.after_append]

theorem text_join (fs : List Filler) (L M : Tiling) :
    (L.join fs M).text = L.text ++ (gapText fs ++ M.text) := by
  induction L with
  | last gap => simp [join, text, text_behind, gapText_append]
  | tile gap l rest ih => simp [join, text, ih]

theorem tokens_join (p : Position) (L : Tiling) :
    (L.join fs M).tokens p = L.tokens p ++ M.tokens (p.after (L.text ++ gapText fs)) := by
  induction L generalizing p with
  | last gap => simp [join, text, tokens, tokens_behind, gapText_append]
  | tile gap l rest ih => simp [join, text, tokens, ih, Position.after_append]

end Tiling

/-! ### A line feed for the end -/

theorem head?_append_feed (s more : List Char) :
    (s ++ '\n' :: more).head? = s.head? ∨ s = [] ∧ (s ++ '\n' :: more).head? = some '\n' := by
  cases s with
  | nil => exact .inr ⟨rfl, rfl⟩
  | cons c s => exact .inl rfl

theorem Filler.EndsBefore.append_feed {f : Filler} {rest : List Char} (ends : f.EndsBefore rest)
    (closed : ∀ body, f ≠ .openComment body) (more : List Char) :
    f.EndsBefore (rest ++ '\n' :: more) := by
  cases f with
  | lineComment body =>
    rcases head?_append_feed rest more with same | ⟨rfl, feed⟩
    · rcases ends with rfl | feed
      · exact .inr rfl
      · exact .inr (same.trans feed)
    · exact .inr feed
  | openComment body => exact absurd rfl (closed body)
  | _ => trivial

/-- A gap stands before another text if each of its fillers ends before it too. -/
theorem IsGap.imp {gap : List Filler} {rest rest' : List Char} (isGap : IsGap gap rest)
    (ends : ∀ f ∈ gap, ∀ front, f.EndsBefore (front ++ rest) → f.EndsBefore (front ++ rest')) :
    IsGap gap rest' := by
  induction gap with
  | nil => trivial
  | cons f fs ih =>
    obtain ⟨formed, here, isGap⟩ := isGap
    obtain ⟨first, later⟩ := List.forall_mem_cons.mp ends
    exact ⟨formed, first _ here, ih isGap later⟩

theorem IsGap.append_feed {gap : List Filler} {rest : List Char} (isGap : IsGap gap rest)
    (closed : ∀ body, .openComment body ∉ gap) (more : List Char) :
    IsGap gap (rest ++ '\n' :: more) := by
  refine isGap.imp fun f member front ends => ?_
  rw [← List.append_assoc]
  exact ends.append_feed (fun body same => closed body (same ▸ member)) more

theorem isGap_append {fs gs : List Filler} {rest : List Char} :
    IsGap (fs ++ gs) rest ↔ IsGap fs (gapText gs ++ rest) ∧ IsGap gs rest := by
  induction fs with
  | nil => exact (iff_of_eq (true_and _)).symm
  | cons f fs ih =>
    rw [List.cons_append, IsGap, IsGap, ih, gapText_append, List.append_assoc, and_assoc, and_assoc]

theorem Lexeme.EndsBefore.append_feed {l : Lexeme} {rest : List Char} (ends : l.EndsBefore rest)
    (more : List Char) : l.EndsBefore (rest ++ '\n' :: more) := by
  intro c head
  rcases head?_append_feed rest more with same | ⟨-, feed⟩
  · exact ends c (same ▸ head)
  · obtain rfl : '\n' = c := Option.some.inj (feed.symm.trans head)
    exact Lexeme.not_goesOn_blank rfl

/-- Of what follows a lexeme, only a point at its front is told of. -/
theorem lexemeDiagnostics_congr (p : Position) (l : Lexeme) {rest rest' : List Char}
    (same : rest'.head? = some '.' ↔ rest.head? = some '.') :
    lexemeDiagnostics p l rest' = lexemeDiagnostics p l rest := by
  obtain ⟨kind, numeral⟩ := l
  cases kind with
  | literal => simp only [Lexeme.lexemeDiagnostics_literal, same]
  | unknown => rcases numeral with _ | ⟨c, _ | ⟨d, ds⟩⟩ <;> rfl
  | _ => rfl

theorem lexemeDiagnostics_append_feed (p : Position) (l : Lexeme) (rest more : List Char) :
    lexemeDiagnostics p l (rest ++ '\n' :: more) = lexemeDiagnostics p l rest := by
  apply lexemeDiagnostics_congr
  cases rest with
  | nil => exact iff_of_false (fun feed => absurd (Option.some.inj feed) (by decide)) nofun
  | cons c rest => rfl

namespace Tiling

theorem closed_of_diagnostics {L : Tiling} {p : Position} (exact_ : L.Exact)
    (closed : ∀ d ∈ L.diagnostics p, d.cause ≠ .unterminatedComment) : L.Closed := by
  induction L generalizing p with
  | last gap =>
    intro body member
    rcases gapDiagnostics_cases exact_ with none | ⟨-, before, open_, rfl, found⟩
    · exact gapDiagnostics_ne_nil member p (none p)
    · refine closed ⟨.unterminatedComment, p.after (gapText before)⟩ ?_ rfl
      rw [diagnostics, found p]
      exact List.mem_singleton_self _
  | tile gap l rest ih =>
    obtain ⟨-, -, -, exact_⟩ := exact_
    exact ih exact_ fun d member => closed d (List.mem_append_right _ member)

theorem Exact.behind {fs : List Filler} {M : Tiling} (isGap : IsGap fs M.text)
    (exact_ : M.Exact) : (M.behind fs).Exact := by
  cases M with
  | last gap =>
    rw [← List.append_nil gap, text, List.append_nil] at isGap
    exact isGap_append.mpr ⟨(List.append_nil (gapText gap)).symm ▸ isGap, exact_⟩
  | tile gap l rest =>
    obtain ⟨own, fits, ends, exact_⟩ := exact_
    exact ⟨isGap_append.mpr ⟨isGap, own⟩, fits, ends, exact_⟩

/-- A line feed keeps what it stands between from running together. -/
theorem Exact.join_feed {L M : Tiling} (first : L.Exact) (closed : L.Closed)
    (second : M.Exact) : (L.join [.blank '\n'] M).Exact := by
  have feed : IsGap [.blank '\n'] M.text := ⟨rfl, trivial, trivial⟩
  induction L with
  | last gap =>
    have extended : IsGap gap ([] ++ '\n' :: M.text) := first.append_feed closed M.text
    exact second.behind (isGap_append.mpr ⟨extended, feed⟩)
  | tile gap l rest ih =>
    obtain ⟨isGap, fits, ends, first⟩ := first
    have text : (rest.join [.blank '\n'] M).text = rest.text ++ '\n' :: M.text := text_join _ _ _
    have inner : ∀ body, .openComment body ∉ gap := by
      intro body member
      have more : l.text ++ rest.text ≠ [] := by simp [fits.ne_nil]
      exact gapDiagnostics_ne_nil member .start (gapDiagnostics_eq_nil isGap more .start)
    refine ⟨?_, fits, ?_, ih first closed⟩
    · rw [text, ← List.append_assoc]
      exact isGap.append_feed inner M.text
    · rw [text]
      exact ends.append_feed M.text

theorem diagnostics_join_feed (p : Position) (L M : Tiling) :
    (L.join [.blank '\n'] M).diagnostics p =
      L.diagnostics p ++ M.diagnostics (p.after (L.text ++ ['\n'])) := by
  induction L generalizing p with
  | last gap =>
    rw [join, diagnostics_behind, gapDiagnostics_append, gapText_append]
    exact congrArg (· ++ _) (List.append_nil _)
  | tile gap l rest ih =>
    have text : (rest.join [.blank '\n'] M).text = rest.text ++ '\n' :: M.text := text_join _ _ _
    rw [join, diagnostics, diagnostics, text, lexemeDiagnostics_append_feed, ih, Tiling.text]
    simp only [Position.after_append, List.append_assoc]

end Tiling

/-- Where the first text leaves no comment open, the scan of two texts with a line feed between
them is the scan of the first, followed by the scan of the second with every line moved down behind
the first text. -/
theorem scan_append_feed (a b : String)
    (closed : ∀ d ∈ (scan a).2, d.cause ≠ .unterminatedComment) :
    scan (a ++ "\n" ++ b) =
      ((scan a).1 ++ (scan b).1.map (Token.down (1 + a.toList.count '\n')),
        (scan a).2 ++ (scan b).2.map (Diagnostic.down (1 + a.toList.count '\n'))) := by
  obtain ⟨L, textL, first⟩ := Tiling.exists_exact a.toList
  obtain ⟨M, textM, second⟩ := Tiling.exists_exact b.toList
  rw [Tiling.scan_eq textL first] at closed
  have exact_ := first.join_feed (Tiling.closed_of_diagnostics first closed) second
  have text : (L.join [.blank '\n'] M).text = (a ++ "\n" ++ b).toList := by
    rw [Tiling.text_join, textL, textM, String.toList_append, String.toList_append,
      List.append_assoc]
    rfl
  have below : Position.start.after (L.text ++ ['\n']) =
      Position.start.down (1 + a.toList.count '\n') := by
    rw [textL, Position.start_after_feed]
  rw [Tiling.scan_eq text exact_, Tiling.scan_eq textL first, Tiling.scan_eq textM second,
    Tiling.diagnostics_join_feed, Tiling.tokens_join, ← Tiling.tokens_down,
    ← Tiling.diagnostics_down, ← below]
  rfl

theorem scan_append_feed_comment :
    (∀ d ∈ (scan "2.//").2, d.cause ≠ .unterminatedComment) ∧
      scan "2.//\n.5/" =
        ([⟨.literal, "2.", 1, 1⟩, ⟨.unknown, ".", 2, 1⟩, ⟨.literal, "5", 2, 2⟩,
          ⟨.operator, "/", 2, 3⟩], [⟨.unknownCharacter '.', ⟨2, 1⟩⟩]) := by
  let L : Tiling := .tile [] ⟨.literal, ['2', '.']⟩ (.last [.lineComment []])
  let M : Tiling := .tile [] ⟨.unknown, ['.']⟩ (.tile [] ⟨.literal, ['5']⟩
    (.tile [] ⟨.operator, ['/']⟩ (.last [])))
  have first : L.Exact := by
    have arranged : L.Arranged :=
      ⟨trivial, @Lexeme.Fits.decimal ['2'] [] (by decide) (List.forall_mem_singleton.mpr rfl)
        (List.forall_mem_nil _), ⟨by decide, .inr ⟨rfl, rfl⟩, trivial⟩⟩
    refine (Tiling.exact_iff_separated arranged).mpr ?_
    simp [L, Tiling.Separated, Lexeme.Clashes, Lexeme.MeetsComment]
  have second : M.Exact := by
    have arranged : M.Arranged :=
      ⟨trivial, .unknown rfl rfl (by decide) (by decide), trivial,
        .integer (by decide) (List.forall_mem_singleton.mpr rfl), trivial, .operator (by decide),
        trivial⟩
    refine (Tiling.exact_iff_separated arranged).mpr ?_
    simp [M, Tiling.Separated, Lexeme.Clashes, Lexeme.Merges, Lexeme.MeetsComment]
  have scanned : scan "2.//" = ([⟨.literal, "2.", 1, 1⟩], []) := Tiling.scan_eq (L := L) rfl first
  have behind : scan ".5/" = ([⟨.unknown, ".", 1, 1⟩, ⟨.literal, "5", 1, 2⟩,
      ⟨.operator, "/", 1, 3⟩], [⟨.unknownCharacter '.', ⟨1, 1⟩⟩]) :=
    Tiling.scan_eq (L := M) rfl second
  have closed : ∀ d ∈ (scan "2.//").2, d.cause ≠ .unterminatedComment := by
    rw [scanned]
    exact List.forall_mem_nil _
  refine ⟨closed, (scan_append_feed "2.//" ".5/" closed).trans ?_⟩
  rw [scanned, behind]
  rfl

end ExprLexer
