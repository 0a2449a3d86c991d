import ExprLexer.Proofs.Scan.Appending

/-!
# Other gaps

Gaps keep lexemes apart and move them. A text scans as the same tokens when its gaps give way to
others that reach as far (`Respaces`). So a comment counts as the blank space that it covers
(`scan_blankComments`).
-/

namespace ExprLexer

/-- The gaps that `r` gives may take the place of those that it is given: they stand before the same
texts, reach as far, and no lexeme goes on into them. -/
structure Respaces (r : List Filler → List Filler) : Prop where
  isGap : ∀ {gap : List Filler} {rest : List Char}, IsGap gap rest → IsGap (r gap) rest
  place : ∀ (gap : List Filler) (p : Position), p.after (gapText (r gap)) = p.after (gapText gap)
  apart : ∀ {l : Lexeme} {gap : List Filler}, l.EndsBefore (gapText gap) →
    l.EndsBefore (gapText (r gap))

namespace Tiling

def mapGaps (r : List Filler → List Filler) : Tiling → Tiling
  | last gap => last (r gap)
  | tile gap l rest => tile (r gap) l (rest.mapGaps r)

end Tiling

namespace Respaces

variable {r : List Filler → List Filler}

theorem eq_nil_iff (respaces : Respaces r) (gap : List Filler) : r gap = [] ↔ gap = [] := by
  have empty : ∀ {cs : List Char}, Position.start.after cs = .start → cs = [] := by
    intro cs same
    by_contra some_
    have later := Position.before_after some_ .start
    rw [same] at later
    exact later.irrefl
  have place := respaces.place gap .start
  constructor
  · intro none
    rw [none] at place
    exact gapText_eq_nil (empty place.symm)
  · rintro rfl
    exact gapText_eq_nil (empty place)

theorem endsBefore_gap (respaces : Respaces r) {l : Lexeme} {gap : List Filler}
    {rest rest' : List Char} (ends : l.EndsBefore (gapText gap ++ rest))
    (same : rest'.head? = rest.head?) : l.EndsBefore (gapText (r gap) ++ rest') := by
  cases gap with
  | nil =>
    rw [(respaces.eq_nil_iff []).mpr rfl]
    exact ends.congr same
  | cons f fs =>
    have shown : ∀ {f : Filler} {fs : List Filler} {rest : List Char},
        (gapText (f :: fs) ++ rest).head? = (gapText (f :: fs)).head? :=
      List.head?_append_of_ne_nil _ (mt gapText_eq_nil (List.cons_ne_nil _ _))
    have here := respaces.apart (ends.congr shown.symm)
    obtain ⟨g, gs, other⟩ := List.exists_cons_of_ne_nil
      (mt (respaces.eq_nil_iff (f :: fs)).mp (List.cons_ne_nil f fs))
    rw [other] at here ⊢
    exact here.congr shown

end Respaces

namespace Tiling

variable {r : List Filler → List Filler} {L : Tiling}

theorem endsBefore_mapGaps (respaces : Respaces r) (exact_ : L.Exact) {l : Lexeme}
    (ends : l.EndsBefore L.text) : l.EndsBefore (L.mapGaps r).text := by
  cases L with
  | last gap =>
    have text : ∀ gap : List Filler, (last gap).text = gapText gap ++ [] :=
      fun gap => (List.append_nil _).symm
    rw [mapGaps, text]
    exact respaces.endsBefore_gap (text gap ▸ ends) rfl
  | tile gap m rest =>
    have some_ := exact_.2.1.ne_nil
    refine respaces.endsBefore_gap ends ?_
    rw [List.head?_append_of_ne_nil _ some_, List.head?_append_of_ne_nil _ some_]

theorem Exact.mapGaps (respaces : Respaces r) (exact_ : L.Exact) : (L.mapGaps r).Exact := by
  induction L with
  | last gap => exact respaces.isGap exact_
  | tile gap l rest ih =>
    obtain ⟨isGap, fits, ends, exact_⟩ := exact_
    refine ⟨(respaces.isGap isGap).congr ?_, fits, endsBefore_mapGaps respaces exact_ ends,
      ih exact_⟩
    rw [List.head?_append_of_ne_nil _ fits.ne_nil, List.head?_append_of_ne_nil _ fits.ne_nil]

theorem tokens_mapGaps (respaces : Respaces r) (p : Position) :
    (L.mapGaps r).tokens p = L.tokens p := by
  induction L generalizing p with
  | last gap => rfl
  | tile gap l rest ih => simp only [mapGaps, tokens, respaces.place, ih]

theorem point_mapGaps (respaces : Respaces r) (exact_ : L.Exact) :
    (L.mapGaps r).text.head? = some '.' ↔ L.text.head? = some '.' := by
  have other := exact_.mapGaps respaces
  cases L with
  | last gap =>
    have nothing : ∀ {gap : List Filler}, IsGap gap [] → (gapText gap).head? ≠ some '.' := by
      intro gap isGap point
      obtain rfl := gap_nil_of_point isGap (by rwa [List.append_nil])
      cases point
    exact iff_of_false (nothing other) (nothing exact_)
  | tile gap l rest =>
    have same : ∀ rest' : List Char, (l.text ++ rest').head? = l.text.head? :=
      fun rest' => List.head?_append_of_ne_nil _ exact_.2.1.ne_nil
    constructor
    · intro point
      have none := (respaces.eq_nil_iff gap).mp (gap_nil_of_point other.1 point)
      rw [mapGaps, text, none, (respaces.eq_nil_iff []).mpr rfl] at point
      rw [text, none]
      exact (same rest.text).trans ((same _).symm.trans point)
    · intro point
      have none := gap_nil_of_point exact_.1 point
      rw [text, none] at point
      rw [mapGaps, text, none, (respaces.eq_nil_iff []).mpr rfl]
      exact (same _).trans ((same rest.text).symm.trans point)

/-- What is told of the lexemes is told with the other gaps too, and what is told of the last gap
is told from the same position. -/
theorem exists_told_mapGaps (respaces : Respaces r) (exact_ : L.Exact) (p : Position) :
    ∃ (ds : List Diagnostic) (gap : List Filler) (q : Position),
      (∀ d ∈ ds, d.cause ≠ .unterminatedComment) ∧ IsGap gap [] ∧
      L.diagnostics p = ds ++ gapDiagnostics q gap ∧
      (L.mapGaps r).diagnostics p = ds ++ gapDiagnostics q (r gap) := by
  induction L generalizing p with
  | last gap => exact ⟨[], gap, p, List.forall_mem_nil _, exact_, rfl, rfl⟩
  | tile gap l rest ih =>
    have other := exact_.mapGaps respaces
    obtain ⟨isGap, fits, -, exact_⟩ := exact_
    have more : ∀ rest' : List Char, l.text ++ rest' ≠ [] := by simp [fits.ne_nil]
    have point := point_mapGaps respaces exact_
    obtain ⟨ds, end_, q, named, isLast, told, told'⟩ :=
      ih exact_ ((p.after (gapText gap)).after l.text)
    refine ⟨lexemeDiagnostics (p.after (gapText gap)) l rest.text ++ ds, end_, q, ?_, isLast,
      ?_, ?_⟩
    · exact List.forall_mem_append.mpr
        ⟨fun d member => (of_mem_lexemeDiagnostics fits member).1, named⟩
    · rw [diagnostics, gapDiagnostics_eq_nil isGap (more _), told, List.nil_append,
        List.append_assoc]
    · rw [mapGaps, diagnostics, gapDiagnostics_eq_nil other.1 (more _), respaces.place,
        lexemeDiagnostics_congr _ l point, told', List.nil_append, List.append_assoc]

end Tiling

/-! ### Comments as blank space -/

/-- The blank characters that cover the same place. -/
def Filler.blanks : Filler → List Char
  | blank c => [c]
  | f => f.text.map fun c => if c = '\n' then '\n' else ' '

def blankGap (gap : List Filler) : List Filler := (gap.flatMap Filler.blanks).map .blank

/-- The source with each character of a comment replaced by a space, unless it is a line feed. -/
def blankComments (s : List Char) : List Char :=
  match _h : gap s with
  | (fs, []) => fs.flatMap Filler.blanks
  | (fs, c :: rest) =>
    fs.flatMap Filler.blanks ++
      ((Lexeme.read c rest).1.text ++ blankComments (Lexeme.read c rest).2)
termination_by s.length
decreasing_by
  have covered := congrArg List.length (gapText_gap s)
  have shorter := Lexeme.length_read_lt c rest
  rw [_h, List.length_append] at covered
  dsimp only at covered
  omega

example : blankComments "a/*\n*/b//".toList = "a  \n  b  ".toList := by decide +kernel

theorem gapText_blanks (cs : List Char) : gapText (cs.map .blank) = cs := by
  rw [gapText, List.flatMap_map]
  exact List.flatMap_singleton' cs

theorem gapText_blankGap (gap : List Filler) :
    gapText (blankGap gap) = gap.flatMap Filler.blanks := gapText_blanks _

theorem Position.after_blanks (f : Filler) (p : Position) : p.after f.blanks = p.after f.text := by
  have covered : ∀ (cs : List Char) (p : Position),
      p.after (cs.map fun c => if c = '\n' then '\n' else ' ') = p.after cs := by
    intro cs
    induction cs with
    | nil => exact fun p => rfl
    | cons c cs ih =>
      intro p
      have step : p.next (if c = '\n' then '\n' else ' ') = p.next c := by
        by_cases feed : c = '\n' <;> simp [next, feed]
      rw [List.map_cons, after_cons, step, ih, after_cons]
  cases f with
  | blank c => rfl
  | _ => exact covered _ p

theorem isGap_blanks {cs rest : List Char} (blank : ∀ c ∈ cs, Text.isBlank c = true) :
    IsGap (cs.map .blank) rest := by
  induction cs with
  | nil => trivial
  | cons c cs ih =>
    obtain ⟨first, later⟩ := List.forall_mem_cons.mp blank
    exact ⟨first, trivial, ih later⟩

theorem Filler.isBlank_blanks {f : Filler} (formed : f.WellFormed) :
    ∀ c ∈ f.blanks, Text.isBlank c = true := by
  intro c member
  cases f with
  | blank d =>
    obtain rfl := List.mem_singleton.mp member
    exact formed
  | _ =>
    obtain ⟨d, -, rfl⟩ := List.mem_map.mp member
    split <;> rfl

theorem IsGap.formed {gap : List Filler} {rest : List Char} (isGap : IsGap gap rest) :
    ∀ f ∈ gap, f.WellFormed := by
  induction gap with
  | nil => exact List.forall_mem_nil _
  | cons f fs ih => exact List.forall_mem_cons.mpr ⟨isGap.1, ih isGap.2.2⟩

theorem blankGap_respaces : Respaces blankGap where
  isGap := by
    intro gap rest isGap
    refine isGap_blanks fun c member => ?_
    obtain ⟨f, inside, member⟩ := List.mem_flatMap.mp member
    exact Filler.isBlank_blanks (isGap.formed f inside) c member
  place := by
    intro gap p
    rw [gapText_blankGap]
    induction gap generalizing p with
    | nil => rfl
    | cons f fs ih =>
      rw [List.flatMap_cons, Position.after_append, Position.after_blanks, ih, gapText_cons,
        Position.after_append]
  apart := by
    intro l gap ends c head
    rw [gapText_blankGap] at head
    cases gap with
    | nil => cases head
    | cons f fs =>
      cases f with
      | blank d => exact ends c head
      | _ =>
        obtain rfl : ' ' = c := Option.some.inj head
        exact Lexeme.not_goesOn_blank rfl

theorem gapDiagnostics_blanks (p : Position) (cs : List Char) :
    gapDiagnostics p (cs.map .blank) = [] := by
  induction cs generalizing p with
  | nil => rfl
  | cons c cs ih => exact ih _

theorem blankComments_last {fs : List Filler} (isGap : IsGap fs []) :
    blankComments (gapText fs) = fs.flatMap Filler.blanks := by
  have read := gap_append isGap rfl
  rw [List.append_nil] at read
  rw [blankComments]
  split
  · next found =>
    cases read.symm.trans found
    rfl
  · next found => cases read.symm.trans found

theorem blankComments_tile {fs : List Filler} {l : Lexeme} {rest : List Char}
    (isGap : IsGap fs (l.text ++ rest)) (fits : l.Fits) (ends : l.EndsBefore rest) :
    blankComments (gapText fs ++ (l.text ++ rest)) =
      fs.flatMap Filler.blanks ++ (l.text ++ blankComments rest) := by
  obtain ⟨c, cs, start, -⟩ := fits.head
  have text : l.text ++ rest = c :: (cs ++ rest) := by rw [start, List.cons_append]
  have read := gap_append isGap (Lexeme.filler?_append_eq_none fits ends)
  have lexeme := Lexeme.read_append fits ends text
  rw [text] at read ⊢
  rw [blankComments]
  split
  · next found => cases read.symm.trans found
  · next found =>
    cases read.symm.trans found
    rw [lexeme]

theorem blankComments_text {L : Tiling} (exact_ : L.Exact) :
    blankComments L.text = (L.mapGaps blankGap).text := by
  induction L with
  | last fs => exact (blankComments_last exact_).trans (gapText_blankGap fs).symm
  | tile fs l rest ih =>
    obtain ⟨isGap, fits, ends, exact_⟩ := exact_
    rw [Tiling.text, blankComments_tile isGap fits ends, ih exact_, Tiling.mapGaps, Tiling.text,
      gapText_blankGap]

/-- A source whose comments give way to blank space scans as the same tokens. It tells the same of
them, and nothing of a comment. -/
theorem scan_blankComments (source : String) :
    scan (String.ofList (blankComments source.toList)) =
      ((scan source).1, (scan source).2.filter (·.cause ≠ .unterminatedComment)) := by
  obtain ⟨L, text, exact_⟩ := Tiling.exists_exact source.toList
  obtain ⟨ds, gap, q, named, -, told, told'⟩ :=
    Tiling.exists_told_mapGaps blankGap_respaces exact_ .start
  have blanked : (L.mapGaps blankGap).text =
      (String.ofList (blankComments source.toList)).toList := by
    rw [String.toList_ofList, ← text, blankComments_text exact_]
  have kept : ds.filter (·.cause ≠ .unterminatedComment) = ds :=
    List.filter_eq_self.mpr fun d member => decide_eq_true (named d member)
  have dropped : (gapDiagnostics q gap).filter (·.cause ≠ .unterminatedComment) = [] := by
    refine List.filter_eq_nil_iff.mpr fun d member other => ?_
    exact of_decide_eq_true other (Tiling.unterminated_of_mem_gapDiagnostics member)
  rw [Tiling.scan_eq text exact_, Tiling.scan_eq blanked (exact_.mapGaps blankGap_respaces),
    Tiling.tokens_mapGaps blankGap_respaces, told, told', List.filter_append, kept, dropped,
    blankGap, gapDiagnostics_blanks]

end ExprLexer
