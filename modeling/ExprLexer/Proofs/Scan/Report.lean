import ExprLexer.Proofs.Scan.Place
import ExprLexer.Proofs.Scan.Sharing

/-!
# Reports

What a scan reports is a function of the source and its tokens: second decimal points and unknown
characters in the order of the tokens, then the comment that the end of the source leaves open
(`scan_reports`).
-/

namespace ExprLexer

/-- What is to be told of the lexeme `l`, which stands in the source `s` behind `before`. -/
def Lexeme.reports (s before : List Char) (l : Lexeme) : List Diagnostic :=
  (if l.kind = .literal ∧ '.' ∈ l.text ∧ s[(before ++ l.text).length]? = some '.' then
    [⟨.extraDecimalPoint l.text, .ofPrefix (before ++ l.text)⟩] else [])
  ++ (if l.kind = .unknown then
    l.text.map fun c => ⟨.unknownCharacter c, .ofPrefix before⟩ else [])

namespace Tiling

/-- The text in front of the last gap, and this gap, where `before` stands in front of the
tiling. -/
def ending (before : List Char) : Tiling → List Char × List Filler
  | last gap => (before, gap)
  | tile gap l rest => rest.ending (before ++ gapText gap ++ l.text)

end Tiling

/-- What is to be told of the gap at the end of a source, which stands behind the text `before`. -/
inductive EndReports (before : List Char) : List Filler → List Diagnostic → Prop
  | closed {gap : List Filler} (closed : ∀ body, Filler.openComment body ∉ gap) :
      EndReports before gap []
  | unterminated {gap : List Filler} {body : List Char} :
      EndReports before (gap ++ [.openComment body])
        [⟨.unterminatedComment, .ofPrefix (before ++ gapText gap)⟩]

theorem Position.eq_or_before_after (p : Position) (cs : List Char) :
    p = p.after cs ∨ p.Before (p.after cs) := by
  cases cs with
  | nil => exact Or.inl rfl
  | cons c cs => exact Or.inr (before_after (List.cons_ne_nil c cs) p)

namespace Diagnostic

def NotAfter (d e : Diagnostic) : Prop :=
  d.position = e.position ∨ d.position.Before e.position

/-- Behind every second decimal point the same point is told of as an unknown character. -/
def PointsFollowed (ds : List Diagnostic) : Prop :=
  ∀ i numeral p, ds[i]? = some ⟨.extraDecimalPoint numeral, p⟩ →
    ds[i + 1]? = some ⟨.unknownCharacter '.', p⟩

/-- An open comment is told of at the end of the list only. -/
def OpenAtEnd (ds : List Diagnostic) : Prop :=
  ∀ i p, ds[i]? = some ⟨.unterminatedComment, p⟩ → i + 1 = ds.length

/-- The piece of source that the message of a cause shows. -/
def Cause.subject : Cause → List Char
  | unknownCharacter c => [c]
  | extraDecimalPoint numeral => numeral
  | unterminatedComment => []

theorem Cause.quote_subject_infix {c : Cause} (named : c ≠ .unterminatedComment) :
    (Text.quote (String.ofList c.subject)).toList <:+: c.message.toList := by
  rw [Text.quote, Text.Points.ofString, String.toList_ofList]
  cases c with
  | unknownCharacter c =>
    dsimp only [message, subject]
    rw [String.toList_append]
    exact (List.suffix_append _ _).isInfix
  | extraDecimalPoint numeral =>
    dsimp only [message, subject]
    rw [String.toList_append, String.toList_append]
    exact List.infix_append _ _ _
  | unterminatedComment => exact absurd rfl named

theorem pointsFollowed_cons {d : Diagnostic} {ds : List Diagnostic} :
    PointsFollowed (d :: ds) ↔
      (∀ numeral p, d = ⟨.extraDecimalPoint numeral, p⟩ →
        ds.head? = some ⟨.unknownCharacter '.', p⟩) ∧ PointsFollowed ds := by
  constructor
  · intro followed
    refine ⟨fun numeral p same => ?_, fun i => followed (i + 1)⟩
    rw [List.head?_eq_getElem?]
    exact followed 0 numeral p (congrArg some same)
  · rintro ⟨first, later⟩ i numeral p found
    cases i with
    | zero =>
      have next := first numeral p (Option.some.inj found)
      rwa [List.head?_eq_getElem?] at next
    | succ i => exact later i numeral p found

theorem openAtEnd_cons {d : Diagnostic} {ds : List Diagnostic}
    (other : d.cause ≠ .unterminatedComment) (later : OpenAtEnd ds) : OpenAtEnd (d :: ds) := by
  intro i p found
  cases i with
  | zero =>
    obtain rfl := Option.some.inj found
    exact absurd rfl other
  | succ i => rw [List.length_cons, later i p found]

end Diagnostic

/-! ### Lexemes -/

namespace Lexeme

theorem reports_other {s before : List Char} {l : Lexeme} (literal : l.kind ≠ .literal)
    (unknown : l.kind ≠ .unknown) : l.reports s before = [] := by
  simp [reports, literal, unknown]

theorem lexemeDiagnostics_other {p : Position} {l : Lexeme} {rest : List Char}
    (literal : l.kind ≠ .literal) (unknown : l.kind ≠ .unknown) :
    lexemeDiagnostics p l rest = [] := by
  obtain ⟨kind, text⟩ := l
  cases kind <;> first | rfl | contradiction

theorem lexemeDiagnostics_literal (p : Position) (numeral rest : List Char) :
    lexemeDiagnostics p ⟨.literal, numeral⟩ rest =
      if '.' ∈ numeral ∧ rest.head? = some '.' then
        [⟨.extraDecimalPoint numeral, p.after numeral⟩] else [] := by
  cases rest with
  | nil => simp [lexemeDiagnostics]
  | cons c rest =>
    by_cases point : c = '.'
    · subst point
      simp [lexemeDiagnostics]
    · simp [lexemeDiagnostics, point]

/-- Each turn of a scan reports of its lexeme just what is to be told of it. -/
theorem lexemeDiagnostics_eq {l : Lexeme} (fits : l.Fits) (before rest : List Char) :
    lexemeDiagnostics (Position.start.after before) l rest =
      l.reports (before ++ (l.text ++ rest)) before := by
  have literal : ∀ numeral,
      lexemeDiagnostics (Position.start.after before) ⟨.literal, numeral⟩ rest =
        reports (before ++ (numeral ++ rest)) before ⟨.literal, numeral⟩ := by
    intro numeral
    have next : (before ++ (numeral ++ rest))[(before ++ numeral).length]? = rest.head? := by
      rw [← List.append_assoc, List.getElem?_append_right (Nat.le_refl _), Nat.sub_self,
        List.head?_eq_getElem?]
    rw [lexemeDiagnostics_literal, reports, next, ← Position.after_append, Position.start_after]
    simp
  cases fits with
  | integer digit digits => exact literal _
  | decimal digit digits places => exact literal _
  | unknown => simp [lexemeDiagnostics, reports, Position.start_after]
  | _ => rw [lexemeDiagnostics_other (by simp) (by simp), reports_other (by simp) (by simp)]

theorem lexemeDiagnostics_cases {l : Lexeme} (fits : l.Fits) (p : Position) (rest : List Char) :
    (l.kind ≠ .unknown ∧ lexemeDiagnostics p l rest = []) ∨
      (l.kind = .unknown ∧ ∃ c, lexemeDiagnostics p l rest = [⟨.unknownCharacter c, p⟩]) ∨
      l.kind ≠ .unknown ∧ rest.head? = some '.' ∧
        lexemeDiagnostics p l rest = [⟨.extraDecimalPoint l.text, p.after l.text⟩] := by
  have literal : ∀ numeral : List Char,
      lexemeDiagnostics p ⟨.literal, numeral⟩ rest = [] ∨ rest.head? = some '.' ∧
        lexemeDiagnostics p ⟨.literal, numeral⟩ rest =
          [⟨.extraDecimalPoint numeral, p.after numeral⟩] := by
    intro numeral
    rw [lexemeDiagnostics_literal]
    split
    · next point => exact Or.inr ⟨point.2, rfl⟩
    · exact Or.inl rfl
  cases fits with
  | @integer whole digit digits => simpa using literal whole
  | @decimal whole fraction digit digits places => simpa using literal (whole ++ '.' :: fraction)
  | unknown => exact Or.inr (Or.inl ⟨rfl, _, rfl⟩)
  | _ => exact Or.inl ⟨by simp, lexemeDiagnostics_other (by simp) (by simp)⟩

end Lexeme

/-! ### Gaps -/

theorem gapDiagnostics_ne_nil {fs : List Filler} {body : List Char}
    (member : .openComment body ∈ fs) (p : Position) : gapDiagnostics p fs ≠ [] := by
  induction fs generalizing p with
  | nil => cases member
  | cons f fs ih =>
    cases f with
    | openComment body => exact List.cons_ne_nil _ _
    | _ =>
      rcases List.mem_cons.mp member with same | later
      · cases same
      · exact ih later _

theorem gapDiagnostics_ends {gap : List Filler} (isGap : IsGap gap []) (before : List Char) :
    EndReports before gap (gapDiagnostics (Position.start.after before) gap) := by
  rcases Tiling.gapDiagnostics_cases isGap with none | ⟨-, closed, body, rfl, found⟩
  · rw [none]
    apply EndReports.closed
    intro body member
    exact gapDiagnostics_ne_nil member .start (none .start)
  · rw [found, ← Position.after_append, Position.start_after]
    exact .unterminated

/-- No gap starts with a point. -/
theorem gap_nil_of_point {gap : List Filler} {rest : List Char} (isGap : IsGap gap rest)
    (point : (gapText gap ++ rest).head? = some '.') : gap = [] := by
  cases gap with
  | nil => rfl
  | cons f fs =>
    obtain ⟨formed, -⟩ := isGap
    rw [gapText_cons] at point
    cases f with
    | blank c =>
      obtain rfl : c = '.' := Option.some.inj point
      exact absurd formed (by decide)
    | _ => exact absurd (Option.some.inj point) (by decide)

/-! ### The whole source -/

namespace Tiling

theorem diagnostics_eq {L : Tiling} (exact_ : L.Exact) (before : List Char) :
    ∃ ends, EndReports (L.ending before).1 (L.ending before).2 ends ∧
      L.diagnostics (Position.start.after before) =
        (L.sites before).flatMap (fun (b, l) => l.reports (before ++ L.text) b) ++ ends := by
  induction L generalizing before with
  | last gap => exact ⟨_, gapDiagnostics_ends exact_ before, rfl⟩
  | tile gap l rest ih =>
    obtain ⟨isGap, fits, -, exact_⟩ := exact_
    have more : l.text ++ rest.text ≠ [] := by simp [fits.ne_nil]
    obtain ⟨ends, told, later⟩ := ih exact_ (before ++ gapText gap ++ l.text)
    have here := Lexeme.lexemeDiagnostics_eq fits (before ++ gapText gap) rest.text
    refine ⟨ends, told, ?_⟩
    rw [diagnostics, gapDiagnostics_eq_nil isGap more, List.nil_append, ← Position.after_append,
      ← Position.after_append, here, later, sites, List.flatMap_cons, text]
    simp only [List.append_assoc]

/-- A point that starts what is left of the source is the next to be told of. -/
theorem diagnostics_of_point {L : Tiling} (exact_ : L.Exact) (point : L.text.head? = some '.')
    (p : Position) : (L.diagnostics p).head? = some ⟨.unknownCharacter '.', p⟩ := by
  cases L with
  | last gap =>
    obtain rfl := gap_nil_of_point exact_ ((List.append_nil _).symm ▸ point)
    cases point
  | tile gap l rest =>
    obtain ⟨isGap, fits, -, -⟩ := exact_
    obtain rfl := gap_nil_of_point isGap point
    obtain ⟨c, cs, spelled, -⟩ := fits.head
    obtain rfl : c = '.' := by
      rw [text, spelled] at point
      exact Option.some.inj point
    obtain rfl : l = Lexeme.ofSymbol '.' := fits.eq_ofSymbol spelled rfl
    rfl

/-- How the diagnostics of a tiling that starts at a position come about, from its end to its
front. -/
inductive Tells : Tiling → Position → List Diagnostic → Prop
  | closed {gap p} (closed : ∀ body, Filler.openComment body ∉ gap) : Tells (last gap) p []
  | unterminated {gap body p} :
      Tells (last (gap ++ [.openComment body])) p
        [⟨.unterminatedComment, p.after (gapText gap)⟩]
  | placed {gap l rest p ds} (known : l.kind ≠ .unknown)
      (later : Tells rest ((p.after (gapText gap)).after l.text) ds) : Tells (tile gap l rest) p ds
  | unknown {gap l rest p c ds} (unknown : l.kind = .unknown)
      (later : Tells rest ((p.after (gapText gap)).after l.text) ds) :
      Tells (tile gap l rest) p (⟨.unknownCharacter c, p.after (gapText gap)⟩ :: ds)
  | point {gap l rest p q ds} (known : l.kind ≠ .unknown)
      (place : q = (p.after (gapText gap)).after l.text) (later : Tells rest q ds)
      (again : ds.head? = some ⟨.unknownCharacter '.', q⟩) :
      Tells (tile gap l rest) p (⟨.extraDecimalPoint l.text, q⟩ :: ds)

theorem tells_diagnostics {L : Tiling} (exact_ : L.Exact) (p : Position) :
    L.Tells p (L.diagnostics p) := by
  induction L generalizing p with
  | last gap =>
    rw [diagnostics]
    rcases gapDiagnostics_cases exact_ with none | ⟨-, closed, body, rfl, found⟩
    · rw [none]
      exact .closed fun body member => gapDiagnostics_ne_nil member p (none p)
    · rw [found]
      exact .unterminated
  | tile gap l rest ih =>
    obtain ⟨isGap, fits, -, exact_⟩ := exact_
    have more : l.text ++ rest.text ≠ [] := by simp [fits.ne_nil]
    have later := ih exact_ ((p.after (gapText gap)).after l.text)
    rw [diagnostics, gapDiagnostics_eq_nil isGap more, List.nil_append]
    rcases Lexeme.lexemeDiagnostics_cases fits (p.after (gapText gap)) rest.text with
      ⟨known, none⟩ | ⟨kind, c, unknown⟩ | ⟨known, point, extra⟩
    · rw [none]
      exact .placed known later
    · rw [unknown]
      exact .unknown kind later
    · rw [extra]
      exact .point known rfl later (diagnostics_of_point exact_ point _)

theorem Tells.pointsFollowed {L : Tiling} {p : Position} {ds : List Diagnostic}
    (tells : L.Tells p ds) : Diagnostic.PointsFollowed ds := by
  induction tells with
  | closed => nofun
  | unterminated => exact Diagnostic.pointsFollowed_cons.mpr ⟨nofun, nofun⟩
  | placed _ _ ih => exact ih
  | unknown _ _ ih => exact Diagnostic.pointsFollowed_cons.mpr ⟨nofun, ih⟩
  | point _ _ _ again ih =>
    refine Diagnostic.pointsFollowed_cons.mpr ⟨fun numeral p' same => ?_, ih⟩
    obtain ⟨-, rfl⟩ := Diagnostic.mk.inj same
    exact again

theorem Tells.openAtEnd {L : Tiling} {p : Position} {ds : List Diagnostic}
    (tells : L.Tells p ds) : Diagnostic.OpenAtEnd ds := by
  induction tells with
  | closed => nofun
  | unterminated =>
    intro i q there
    obtain ⟨first, -⟩ := List.getElem?_eq_some_iff.mp there
    rw [List.length_singleton] at first ⊢
    omega
  | placed _ _ ih => exact ih
  | unknown _ _ ih => exact Diagnostic.openAtEnd_cons nofun ih
  | point _ _ _ _ ih => exact Diagnostic.openAtEnd_cons nofun ih

theorem Tells.eq_nil_iff {L : Tiling} {p : Position} {ds : List Diagnostic} (tells : L.Tells p ds)
    (before : List Char) : ds = [] ↔ (∀ l ∈ L.lexemes, l.kind ≠ .unknown) ∧
      ∀ body, .openComment body ∉ (L.ending before).2 := by
  induction tells generalizing before with
  | closed closed => exact iff_of_true rfl ⟨nofun, closed⟩
  | unterminated =>
    exact iff_of_false (List.cons_ne_nil _ _) fun clean => clean.2 _ List.mem_concat_self
  | placed known _ ih => rw [ih, lexemes, List.forall_mem_cons, and_iff_right known, ending]
  | unknown kind =>
    refine iff_of_false (List.cons_ne_nil _ _) fun clean => ?_
    exact clean.1 _ List.mem_cons_self kind
  | point _ _ _ again ih =>
    refine iff_of_false (List.cons_ne_nil _ _) fun clean => ?_
    have quiet := (ih _).mpr ⟨(List.forall_mem_cons.mp clean.1).2, clean.2⟩
    rw [quiet] at again
    cases again

theorem Tells.position_of_mem {L : Tiling} {p : Position} {ds : List Diagnostic}
    (tells : L.Tells p ds) : ∀ d ∈ ds, ∃ cs, d.position = p.after cs := by
  induction tells with
  | closed => nofun
  | unterminated => exact List.forall_mem_singleton.mpr ⟨_, rfl⟩
  | placed _ _ ih =>
    intro d member
    obtain ⟨cs, place⟩ := ih d member
    exact ⟨_, by rw [place, ← Position.after_append, ← Position.after_append]⟩
  | unknown _ _ ih =>
    refine List.forall_mem_cons.mpr ⟨⟨_, rfl⟩, fun d member => ?_⟩
    obtain ⟨cs, place⟩ := ih d member
    exact ⟨_, by rw [place, ← Position.after_append, ← Position.after_append]⟩
  | point _ here _ _ ih =>
    rw [← Position.after_append] at here
    refine List.forall_mem_cons.mpr ⟨⟨_, here⟩, fun d member => ?_⟩
    obtain ⟨cs, place⟩ := ih d member
    exact ⟨_, by rw [place, here, ← Position.after_append]⟩

theorem Tells.pairwise {L : Tiling} {p : Position} {ds : List Diagnostic}
    (tells : L.Tells p ds) : ds.Pairwise Diagnostic.NotAfter := by
  induction tells with
  | closed => exact List.Pairwise.nil
  | unterminated => exact List.pairwise_singleton _ _
  | placed _ _ ih => exact ih
  | unknown _ later ih =>
    refine List.pairwise_cons.mpr ⟨fun d member => ?_, ih⟩
    obtain ⟨cs, place⟩ := later.position_of_mem d member
    rw [Diagnostic.NotAfter, place, ← Position.after_append]
    exact Position.eq_or_before_after _ _
  | point _ _ later _ ih =>
    refine List.pairwise_cons.mpr ⟨fun d member => ?_, ih⟩
    obtain ⟨cs, place⟩ := later.position_of_mem d member
    rw [Diagnostic.NotAfter, place]
    exact Position.eq_or_before_after _ _

end Tiling

/-- A scan reports, in this order: of each token in turn, a second decimal point that ends it and
the character that it could not place; then the block comment that the end of the source leaves
open. Nothing else is reported. So positions never go back, a second point is told of again as an
unknown character, an open comment is told of once and last, and nothing is told of a source in
which every character has its place and every comment is closed. The tokens are those that a reader
of the source is given, and a message shows the piece of source that it is about. -/
theorem scan_reports (source : String) :
    (∃ (L : Tiling) (ends : List Diagnostic), L.text = source.toList ∧ L.Exact ∧
      (scan source).1 = (L.sites []).map (fun (before, l) =>
        Token.located l.kind l.text (.ofPrefix before)) ∧
      EndReports (L.ending []).1 (L.ending []).2 ends ∧
      (scan source).2 =
        (L.sites []).flatMap (fun (before, l) => l.reports source.toList before) ++ ends ∧
      ((scan source).2 = [] ↔ (∀ t ∈ (scan source).1, t.kind ≠ .unknown) ∧
        ∀ body, .openComment body ∉ (L.ending []).2)) ∧
    (scan source).2.Pairwise Diagnostic.NotAfter ∧
    Diagnostic.PointsFollowed (scan source).2 ∧
    Diagnostic.OpenAtEnd (scan source).2 ∧
    (∀ d ∈ (scan source).2, d.cause ≠ .unterminatedComment →
      (Text.quote (String.ofList d.cause.subject)).toList <:+: d.message.toList) ∧
    (Scanner.ofSource source).drain.1 = (scan source).1 := by
  obtain ⟨L, text, exact_⟩ := Tiling.exists_exact source.toList
  obtain ⟨ends, told, all⟩ := Tiling.diagnostics_eq exact_ []
  have tells := Tiling.tells_diagnostics exact_ .start
  have lexemes : L.lexemes = (L.tokens .start).map Token.lexeme := (L.map_lexeme_tokens .start).symm
  have drained : (scan source).1 = (Scanner.ofSource source).drain.1 := by
    obtain ⟨moves, done⟩ := (Scanner.ofSource source).drain_moves
    have left := moves.left
    rw [Scanner.left, Scanner.left, Scanner.run_of_done done, List.append_nil] at left
    exact left
  refine ⟨⟨L, ends, text, exact_, ?_⟩, ?_⟩
  · rw [Tiling.scan_eq text exact_, ← text]
    refine ⟨L.tokens_eq_sites [], told, all, ?_⟩
    rw [tells.eq_nil_iff [], lexemes, List.forall_mem_map]
    rfl
  · refine ⟨?_, ?_, ?_, fun d _ named => d.cause.quote_subject_infix named, drained.symm⟩
    all_goals rw [Tiling.scan_eq text exact_]
    · exact tells.pairwise
    · exact tells.pointsFollowed
    · exact tells.openAtEnd

end ExprLexer
