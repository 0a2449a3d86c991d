import ExprLexer.Proofs.Scan.Joining

/-!
# Appended text

The scan looks one character ahead. So what is appended to a source changes its last token or what
follows this token, and nothing in front of it (`scan_append_stable`).
-/

namespace ExprLexer

instance : DecidableRel Token.Before := fun t u =>
  inferInstanceAs (Decidable (t.line < u.line ∨ t.line = u.line ∧ t.column < u.column))

namespace Diagnostic

/-- The diagnostic is placed in front of the token. -/
def IsBefore (d : Diagnostic) (t : Token) : Prop :=
  d.position.line < t.line ∨ d.position.line = t.line ∧ d.position.column < t.column

/-- The diagnostic is placed in the token or at its end. -/
def Touches (d : Diagnostic) (t : Token) : Prop :=
  d.position.line = t.line ∧ t.column ≤ d.position.column ∧
    d.position.column ≤ t.column + t.text.length

/-- More text cannot undo the diagnostic: it tells of no open comment, and it does not touch the
last of the tokens. -/
def IsSettled (tokens : List Token) (d : Diagnostic) : Prop :=
  d.cause ≠ .unterminatedComment ∧ ∀ t ∈ tokens.getLast?, ¬ d.Touches t

instance : DecidableRel IsBefore := fun d t =>
  inferInstanceAs (Decidable (d.position.line < t.line ∨
    d.position.line = t.line ∧ d.position.column < t.column))

instance : DecidableRel Touches := fun d t =>
  inferInstanceAs (Decidable (d.position.line = t.line ∧ t.column ≤ d.position.column ∧
    d.position.column ≤ t.column + t.text.length))

instance (tokens : List Token) : DecidablePred (IsSettled tokens) := fun d =>
  inferInstanceAs (Decidable (d.cause ≠ .unterminatedComment ∧
    ∀ t ∈ tokens.getLast?, ¬ d.Touches t))

end Diagnostic

/-! ### One character of lookahead -/

theorem Filler.EndsBefore.congr {f : Filler} {rest rest' : List Char} (ends : f.EndsBefore rest)
    (same : rest'.head? = rest.head?) : f.EndsBefore rest' := by
  have end_ : rest = [] → rest' = [] := by
    rintro rfl
    exact List.head?_eq_none_iff.mp same
  cases f with
  | lineComment body => exact ends.imp end_ same.trans
  | openComment body => exact end_ ends
  | _ => trivial

theorem IsGap.congr {fs : List Filler} {rest rest' : List Char} (isGap : IsGap fs rest)
    (same : rest'.head? = rest.head?) : IsGap fs rest' := by
  refine isGap.imp fun f _ front ends => ends.congr ?_
  rw [List.head?_append, List.head?_append, same]

theorem Lexeme.EndsBefore.congr {l : Lexeme} {rest rest' : List Char} (ends : l.EndsBefore rest)
    (same : rest'.head? = rest.head?) : l.EndsBefore rest' := by
  intro c head
  exact ends c (same ▸ head)

namespace Tiling

variable {K M N : Tiling}

theorem Exact.gap_of_behind {fs : List Filler} (exact_ : (M.behind fs).Exact) :
    IsGap fs M.text := by
  cases M with
  | last gap =>
    have front := (isGap_append.mp exact_).1
    rwa [List.append_nil] at front
  | tile gap l rest => exact (isGap_append.mp exact_.1).1

theorem Exact.of_behind {fs : List Filler} (exact_ : (M.behind fs).Exact) : M.Exact := by
  cases M with
  | last gap => exact (isGap_append.mp exact_).2
  | tile gap l rest => exact ⟨(isGap_append.mp exact_.1).2, exact_.2⟩

theorem Exact.of_join (exact_ : (K.join [] M).Exact) : M.Exact := by
  induction K with
  | last gap => exact exact_.of_behind
  | tile gap l rest ih => exact ih exact_.2.2.2

theorem head?_text_join (K : Tiling) (same : N.text.head? = M.text.head?) :
    (K.join [] N).text.head? = (K.join [] M).text.head? := by
  rw [text_join, text_join, gapText, List.flatMap_nil, List.nil_append, List.nil_append,
    List.head?_append, List.head?_append, same]

/-- What follows a tiling may be exchanged for another text with the same first character. -/
theorem Exact.join_congr (exact_ : (K.join [] M).Exact) (second : N.Exact)
    (same : N.text.head? = M.text.head?) : (K.join [] N).Exact := by
  induction K with
  | last gap =>
    rw [join, List.append_nil] at exact_ ⊢
    exact second.behind (exact_.gap_of_behind.congr same)
  | tile gap l rest ih =>
    obtain ⟨isGap, fits, ends, exact_⟩ := exact_
    have head := head?_text_join rest same
    refine ⟨isGap.congr ?_, fits, ends.congr head, ih exact_⟩
    rw [List.head?_append, List.head?_append, head]

theorem of_mem_lexemeDiagnostics {l : Lexeme} {p : Position} {rest : List Char} {d : Diagnostic}
    (fits : l.Fits) (member : d ∈ lexemeDiagnostics p l rest) :
    d.cause ≠ .unterminatedComment ∧ (d.position = p ∨ d.position = p.after l.text) := by
  rcases Lexeme.lexemeDiagnostics_cases fits p rest with ⟨-, none⟩ | ⟨-, c, unknown⟩ | ⟨-, -, extra⟩
  · rw [none] at member
    cases member
  · rw [unknown, List.mem_singleton] at member
    simp [member]
  · rw [extra, List.mem_singleton] at member
    simp [member]

/-- What is told of a tiling in front of other text hangs on the first character of this text only.
All of it is placed in front of the text or at its start. -/
theorem exists_told (exact_ : (K.join [] M).Exact) (more : M.text ≠ []) (p : Position) :
    ∃ ds : List Diagnostic,
      (∀ d ∈ ds, d.cause ≠ .unterminatedComment ∧
        ∃ cs, p.after K.text = d.position.after cs) ∧
      ∀ N : Tiling, N.text.head? = M.text.head? →
        (K.join [] N).diagnostics p = ds ++ N.diagnostics (p.after K.text) := by
  induction K generalizing p with
  | last gap =>
    rw [join, List.append_nil] at exact_
    have quiet := gapDiagnostics_eq_nil exact_.gap_of_behind more p
    refine ⟨[], List.forall_mem_nil _, fun N _ => ?_⟩
    rw [join, List.append_nil, diagnostics_behind, quiet]
    rfl
  | tile gap l rest ih =>
    obtain ⟨isGap, fits, -, exact_⟩ := exact_
    obtain ⟨ds, front, later⟩ := ih exact_ ((p.after (gapText gap)).after l.text)
    have some_ : l.text ++ (rest.join [] M).text ≠ [] := by simp [fits.ne_nil]
    have quiet := gapDiagnostics_eq_nil isGap some_ p
    have place : p.after (tile gap l rest).text =
        ((p.after (gapText gap)).after l.text).after rest.text := by
      rw [text, Position.after_append, Position.after_append]
    refine ⟨lexemeDiagnostics (p.after (gapText gap)) l (rest.join [] M).text ++ ds, ?_, ?_⟩
    · rw [place]
      refine List.forall_mem_append.mpr ⟨fun d member => ?_, front⟩
      obtain ⟨named, start | stop⟩ := of_mem_lexemeDiagnostics fits member
      · rw [start, ← Position.after_append]
        exact ⟨named, _, rfl⟩
      · rw [stop]
        exact ⟨named, _, rfl⟩
    · intro N same
      have head := head?_text_join rest same
      have here := lexemeDiagnostics_congr (p.after (gapText gap)) l
        (iff_of_eq (congrArg (· = some '.') head))
      rw [join, diagnostics, quiet, here, later N same, place, List.nil_append, List.append_assoc]

/-- A lexeme and the gap behind it. -/
def single (l : Lexeme) (gap : List Filler) : Tiling := tile [] l (last gap)

theorem text_single (l : Lexeme) (gap : List Filler) :
    (single l gap).text = l.text ++ gapText gap := rfl

theorem eq_last_or_join (L : Tiling) :
    (∃ gap, L = last gap) ∨ ∃ (K : Tiling) (l : Lexeme) (gap : List Filler),
      L = K.join [] (single l gap) := by
  induction L with
  | last gap => exact .inl ⟨gap, rfl⟩
  | tile gap l rest ih =>
    rcases ih with ⟨end_, rfl⟩ | ⟨K, m, end_, rfl⟩
    · refine .inr ⟨last gap, l, end_, ?_⟩
      rw [join, single, behind, List.append_nil, List.append_nil]
    · exact .inr ⟨tile gap l K, m, end_, rfl⟩

end Tiling

/-! ### In front of the last token -/

theorem isPrefix_filter {α : Type} {p : α → Bool} {l : List α}
    (falls : l.Pairwise fun a b => p b = true → p a = true) : l.filter p <+: l := by
  induction l with
  | nil => exact List.prefix_rfl
  | cons a l ih =>
    obtain ⟨first, later⟩ := List.pairwise_cons.mp falls
    by_cases here : p a = true
    · rw [List.filter_cons_of_pos here]
      exact List.cons_prefix_cons.mpr ⟨rfl, ih later⟩
    · have none : l.filter p = [] :=
        List.filter_eq_nil_iff.mpr fun b member there => here (first b member there)
      rw [List.filter_cons_of_neg here, none]
      exact List.nil_prefix

theorem Position.not_before_after (p : Position) (cs : List Char) : ¬ (p.after cs).Before p := by
  intro before
  rcases p.eq_or_before_after cs with same | after
  · rw [← same] at before
    exact before.irrefl
  · exact (before.trans after).irrefl

theorem Position.after_line {cs : List Char} (noFeed : '\n' ∉ cs) (p : Position) :
    p.after cs = ⟨p.line, p.column + cs.length⟩ := by
  induction cs generalizing p with
  | nil => rfl
  | cons c cs ih =>
    rw [List.mem_cons, not_or] at noFeed
    rw [after_cons, ih noFeed.2, next, if_neg (Ne.symm noFeed.1), List.length_cons, Nat.add_assoc,
      Nat.add_comm 1]

namespace Diagnostic

variable {d : Diagnostic} {k : Kind} {s : List Char} {p : Position}

theorem isBefore_located : d.IsBefore (Token.located k s p) ↔ d.position.Before p := by
  simp only [IsBefore, Token.located, Position.Before, Int.ofNat_lt, Int.ofNat_inj]

theorem touches_located : d.Touches (Token.located k s p) ↔
    d.position.line = p.line ∧ p.column ≤ d.position.column ∧
      d.position.column ≤ p.column + s.length := by
  simp only [Touches, Token.located, String.length_ofList]
  omega

theorem not_touches_of_before (before : d.position.Before p) :
    ¬ d.Touches (Token.located k s p) := by
  rw [touches_located]
  unfold Position.Before at before
  omega

end Diagnostic

namespace Tiling

variable {K N : Tiling} {l : Lexeme} {gap : List Filler} {p q : Position} {d : Diagnostic}

theorem touches_of_mem_lexemeDiagnostics (fits : l.Fits) {rest : List Char}
    (member : d ∈ lexemeDiagnostics q l rest) : d.Touches (Token.located l.kind l.text q) := by
  have noFeed : '\n' ∉ l.text := fun feed => absurd (fits.not_isBlank _ feed) (by decide)
  rw [Diagnostic.touches_located]
  obtain ⟨-, start | stop⟩ := of_mem_lexemeDiagnostics fits member
  · simp [start]
  · simp [stop, Position.after_line noFeed]

theorem unterminated_of_mem_gapDiagnostics (member : d ∈ gapDiagnostics p gap) :
    d.cause = .unterminatedComment := by
  induction gap generalizing p with
  | nil => cases member
  | cons f fs ih =>
    cases f with
    | openComment body =>
      rcases List.mem_cons.mp member with rfl | later
      · rfl
      · exact ih later
    | _ => exact ih member

/-- Nothing that a tiling tells is placed in front of it. -/
theorem not_before_of_mem (exact_ : N.Exact) (member : d ∈ N.diagnostics q) :
    ¬ d.position.Before q := by
  obtain ⟨cs, place⟩ := (tells_diagnostics exact_ q).position_of_mem d member
  rw [place]
  exact q.not_before_after cs

/-- The settled diagnostics are those in front of the last token. -/
theorem settled_iff_before (exact_ : (K.join [] (single l gap)).Exact)
    (place : p.after K.text = q) (member : d ∈ (K.join [] (single l gap)).diagnostics p) :
    (d.cause ≠ .unterminatedComment ∧ ¬ d.Touches (Token.located l.kind l.text q)) ↔
      d.position.Before q := by
  have last_ := exact_.of_join
  have fits := last_.2.1
  have more : (single l gap).text ≠ [] := by simp [text_single, fits.ne_nil]
  obtain ⟨ds, front, told⟩ := exists_told exact_ more p
  rw [place] at front told
  rw [told _ rfl, List.mem_append] at member
  rcases member with member | member
  · obtain ⟨named, cs, place⟩ := front d member
    cases cs with
    | nil =>
      obtain rfl : q = d.position := place
      refine iff_of_false (fun settled => settled.2 ?_) (Position.Before.irrefl _)
      rw [Diagnostic.touches_located]
      omega
    | cons c cs =>
      have before : d.position.Before q := by
        rw [place]
        exact Position.before_after (List.cons_ne_nil c cs) d.position
      exact iff_of_true ⟨named, Diagnostic.not_touches_of_before before⟩ before
  · refine iff_of_false (fun settled => ?_) (not_before_of_mem last_ member)
    rcases List.mem_append.mp member with here | behind
    · exact settled.2 (touches_of_mem_lexemeDiagnostics fits here)
    · exact settled.1 (unterminated_of_mem_gapDiagnostics behind)

theorem tokens_join_single (K : Tiling) (l : Lexeme) (gap : List Filler) (p : Position) :
    (K.join [] (single l gap)).tokens p =
      K.tokens p ++ [Token.located l.kind l.text (p.after K.text)] := by
  rw [tokens_join, gapText, List.flatMap_nil, List.append_nil]
  rfl

theorem filter_isSettled (exact_ : (K.join [] (single l gap)).Exact) (p : Position) :
    ((K.join [] (single l gap)).diagnostics p).filter
        (Diagnostic.IsSettled ((K.join [] (single l gap)).tokens p)) =
      ((K.join [] (single l gap)).diagnostics p).filter
        (Diagnostic.IsBefore · (Token.located l.kind l.text (p.after K.text))) := by
  refine List.filter_congr fun d member => decide_eq_decide.mpr ?_
  rw [Diagnostic.IsSettled, tokens_join_single, List.getLast?_concat, Diagnostic.isBefore_located,
    ← settled_iff_before exact_ rfl member]
  simp only [Option.mem_def, Option.some.injEq, forall_eq']

/-- Whatever stands there from the last lexeme on, the tokens in front of it are the same. -/
theorem tokens_before_join (exact_ : (K.join [] (single l gap)).Exact) (p : Position) :
    ((K.join [] N).tokens p).filter
      (Token.Before · (Token.located l.kind l.text (p.after K.text))) = K.tokens p := by
  have order := tokens_pairwise exact_ p
  rw [tokens_join_single, List.pairwise_append] at order
  have front := List.filter_eq_self.mpr fun u member =>
    decide_eq_true (order.2.2 u member _ (List.mem_singleton_self _))
  have behind : (N.tokens (p.after K.text)).filter
      (Token.Before · (Token.located l.kind l.text (p.after K.text))) = [] := by
    refine List.filter_eq_nil_iff.mpr fun u member before => ?_
    obtain ⟨k, s, cs, rfl⟩ := mem_tokens member
    simp only [Token.Before, Token.located, Int.ofNat_lt, Int.ofNat_inj,
      decide_eq_true_eq] at before
    exact (p.after K.text).not_before_after cs before
  rw [tokens_join, gapText, List.flatMap_nil, List.append_nil, List.filter_append, front, behind,
    List.append_nil]

theorem diagnostics_before_join (exact_ : (K.join [] (single l gap)).Exact) (second : N.Exact)
    (head : N.text.head? = (single l gap).text.head?) (p : Position) :
    ((K.join [] N).diagnostics p).filter
        (Diagnostic.IsBefore · (Token.located l.kind l.text (p.after K.text))) =
      ((K.join [] (single l gap)).diagnostics p).filter
        (Diagnostic.IsBefore · (Token.located l.kind l.text (p.after K.text))) := by
  have last_ := exact_.of_join
  have more : (single l gap).text ≠ [] := by simp [text_single, last_.2.1.ne_nil]
  obtain ⟨ds, -, told⟩ := exists_told exact_ more p
  have behind : ∀ {M : Tiling}, M.Exact → (M.diagnostics (p.after K.text)).filter
      (Diagnostic.IsBefore · (Token.located l.kind l.text (p.after K.text))) = [] := by
    intro M exact_
    refine List.filter_eq_nil_iff.mpr fun d member before => not_before_of_mem exact_ member ?_
    exact Diagnostic.isBefore_located.mp (of_decide_eq_true before)
  rw [told N head, told _ rfl, List.filter_append, List.filter_append, behind second, behind last_]

end Tiling

theorem Diagnostic.isPrefix_before {ds : List Diagnostic} (order : ds.Pairwise NotAfter) (k : Kind)
    (s : List Char) (p : Position) :
    ds.filter (IsBefore · (Token.located k s p)) <+: ds := by
  refine isPrefix_filter (order.imp fun {d e} notAfter before => decide_eq_true ?_)
  have before := isBefore_located.mp (of_decide_eq_true before)
  rw [isBefore_located]
  rcases notAfter with same | earlier
  · rwa [same]
  · exact earlier.trans before

/-- What is appended to a source changes its last token or what follows it: the tokens in front of
the last one stay the first tokens, and the diagnostics that neither tell of an open comment nor
touch the last token stay the first diagnostics. In front of the last token's place nothing else is
found. -/
theorem scan_append_stable (a b : String) :
    (scan a).1.dropLast <+: (scan (a ++ b)).1 ∧
    (scan a).2.filter (Diagnostic.IsSettled (scan a).1) <+: (scan (a ++ b)).2 ∧
    ∀ t ∈ (scan a).1.getLast?,
      (scan (a ++ b)).1.filter (Token.Before · t) = (scan a).1.dropLast ∧
      (scan (a ++ b)).2.filter (Diagnostic.IsBefore · t) =
        (scan a).2.filter (Diagnostic.IsSettled (scan a).1) := by
  obtain ⟨L, text, exact_⟩ := Tiling.exists_exact a.toList
  rw [Tiling.scan_eq text exact_]
  rcases L.eq_last_or_join with ⟨gap, rfl⟩ | ⟨K, l, gap, rfl⟩
  · have none : ((Tiling.last gap).diagnostics .start).filter (Diagnostic.IsSettled []) = [] := by
      refine List.filter_eq_nil_iff.mpr fun d member settled => ?_
      exact (of_decide_eq_true settled).1 (Tiling.unterminated_of_mem_gapDiagnostics member)
    rw [Tiling.tokens, none]
    refine ⟨?_, ?_, fun t member => ?_⟩
    · exact List.nil_prefix
    · exact List.nil_prefix
    · cases member
  · obtain ⟨N, textN, second⟩ := Tiling.exists_exact (l.text ++ (gapText gap ++ b.toList))
    have head : N.text.head? = (Tiling.single l gap).text.head? := by
      have some_ := exact_.of_join.2.1.ne_nil
      rw [textN, Tiling.text_single, List.head?_append_of_ne_nil _ some_,
        List.head?_append_of_ne_nil _ some_]
    have whole : (K.join [] N).text = (a ++ b).toList := by
      rw [String.toList_append, ← text, Tiling.text_join, Tiling.text_join, textN]
      simp [Tiling.text_single]
    have tokens := K.tokens_join_single l gap .start
    have joined := exact_.join_congr second head
    have before := Tiling.tokens_before_join (N := N) exact_ .start
    have front := Tiling.diagnostics_before_join exact_ second head .start
    have order := (Tiling.tells_diagnostics joined .start).pairwise
    have kept : K.tokens .start <+: (K.join [] N).tokens .start := by
      rw [Tiling.tokens_join]
      exact List.prefix_append _ _
    rw [Tiling.scan_eq whole joined, Tiling.filter_isSettled exact_, ← front, tokens,
      List.dropLast_concat, List.getLast?_concat]
    refine ⟨kept, Diagnostic.isPrefix_before order _ _ _, fun t member => ?_⟩
    obtain rfl := Option.some.inj member
    exact ⟨before, rfl⟩

end ExprLexer
