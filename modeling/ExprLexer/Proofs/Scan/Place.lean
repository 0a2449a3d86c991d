import ExprLexer.Proofs.Position
import ExprLexer.Proofs.Scan.Tiling

/-!
# Places

Tokens and diagnostics stand where a count of line feeds and columns puts their offsets
(`scan_places`). A place leads back to the token's text, and tokens come in the order of reading.
-/

namespace ExprLexer

namespace Tiling

/-- The lexemes with the text in front of each, where `before` stands in front of the tiling. -/
def sites (before : List Char) : Tiling → List (List Char × Lexeme)
  | last _ => []
  | tile gap l rest => (before ++ gapText gap, l) :: rest.sites (before ++ gapText gap ++ l.text)

/-- The tiling behind the text `before` gives the cause at the offset where the text `at_` ends. -/
inductive Locates : (before : List Char) → Tiling → (at_ : List Char) → Diagnostic.Cause → Prop
  | unknown {before gap c rest} :
      Locates before (tile gap ⟨.unknown, [c]⟩ rest) (before ++ gapText gap) (.unknownCharacter c)
  | point {before gap numeral rest} (point : '.' ∈ numeral) (second : rest.text.head? = some '.') :
      Locates before (tile gap ⟨.literal, numeral⟩ rest) (before ++ gapText gap ++ numeral)
        (.extraDecimalPoint numeral)
  | comment {before fs body} :
      Locates before (last (fs ++ [.openComment body])) (before ++ gapText fs) .unterminatedComment
  | later {before gap l rest at_ cause}
      (found : Locates (before ++ gapText gap ++ l.text) rest at_ cause) :
      Locates before (tile gap l rest) at_ cause

end Tiling

def Diagnostic.Cause.mark : Diagnostic.Cause → List Char
  | unknownCharacter c => [c]
  | extraDecimalPoint _ => ['.']
  | unterminatedComment => ['/', '*']

/-- Line and column of the token lead to its text in `s`. -/
def Token.StandsIn (s : List Char) (t : Token) : Prop :=
  1 ≤ t.line ∧ 1 ≤ t.column ∧
    ∃ row, (Text.pieces '\n' s)[(t.line - 1).toNat]? = some row ∧
      (row.drop (t.column - 1).toNat).take t.text.length = t.text.toList

def Token.Before (t u : Token) : Prop := t.line < u.line ∨ t.line = u.line ∧ t.column < u.column

/-! ### Tokens -/

theorem Token.located_standsIn {before line rest : List Char} (kind : Kind) (noFeed : '\n' ∉ line) :
    Token.StandsIn (before ++ (line ++ rest))
      (Token.located kind line (Position.ofPrefix before)) := by
  obtain ⟨row, found, slice⟩ := Position.row_slice before rest noFeed
  have fromOne : 1 ≤ (Position.ofPrefix before).line ∧ 1 ≤ (Position.ofPrefix before).column := by
    simp [Position.ofPrefix]
  have sub : ∀ n : Nat, ((n : Int) - 1).toNat = n - 1 := by omega
  refine ⟨Int.ofNat_le.mpr fromOne.1, Int.ofNat_le.mpr fromOne.2, row, ?_, ?_⟩
  · rwa [Token.located, sub]
  · rwa [Token.located, sub, String.length_ofList, String.toList_ofList]

namespace Tiling

theorem tokens_eq_sites (L : Tiling) (before : List Char) :
    L.tokens (Position.start.after before) =
      (L.sites before).map fun (b, l) => Token.located l.kind l.text (Position.ofPrefix b) := by
  induction L generalizing before with
  | last gap => rfl
  | tile gap l rest ih =>
    have place := Position.start_after (before ++ gapText gap)
    simp only [tokens, sites, List.map_cons, ← ih, ← place, Position.after_append]

theorem mem_sites {L : Tiling} {before b : List Char} {l : Lexeme} (exact_ : L.Exact)
    (member : (b, l) ∈ L.sites before) : l.Fits ∧ b ++ l.text <+: before ++ L.text := by
  induction L generalizing before with
  | last gap => cases member
  | tile gap m rest ih =>
    obtain ⟨-, fits, -, exact_⟩ := exact_
    rcases List.mem_cons.mp member with same | later
    · obtain ⟨rfl, rfl⟩ := Prod.mk.inj same
      exact ⟨fits, rest.text, by simp [text]⟩
    · obtain ⟨fits, behind⟩ := ih exact_ later
      exact ⟨fits, by simpa [text] using behind⟩

theorem mem_tokens {L : Tiling} {p : Position} {t : Token} (member : t ∈ L.tokens p) :
    ∃ k s cs, t = Token.located k s (p.after cs) := by
  induction L generalizing p with
  | last gap => cases member
  | tile gap l rest ih =>
    rcases List.mem_cons.mp member with rfl | later
    · exact ⟨_, _, _, rfl⟩
    · obtain ⟨k, s, cs, rfl⟩ := ih later
      rw [← Position.after_append, ← Position.after_append]
      exact ⟨k, s, _, rfl⟩

theorem tokens_pairwise {L : Tiling} (exact_ : L.Exact) (p : Position) :
    (L.tokens p).Pairwise Token.Before := by
  induction L generalizing p with
  | last gap => exact List.Pairwise.nil
  | tile gap l rest ih =>
    obtain ⟨-, fits, -, exact_⟩ := exact_
    refine List.pairwise_cons.mpr ⟨fun t later => ?_, ih exact_ _⟩
    obtain ⟨k, s, cs, rfl⟩ := mem_tokens later
    rw [← Position.after_append]
    have some_ : l.text ++ cs ≠ [] := by simp [fits.ne_nil]
    have order := Position.before_after some_ (p.after (gapText gap))
    unfold Position.Before at order
    simpa only [Token.Before, Token.located, Int.ofNat_lt, Int.ofNat_inj] using order

/-! ### Diagnostics -/

theorem Locates.mark {L : Tiling} {before at_ : List Char} {cause : Diagnostic.Cause}
    (located : L.Locates before at_ cause) : at_ ++ cause.mark <+: before ++ L.text := by
  induction located with
  | @unknown before gap c rest =>
    refine ⟨rest.text, ?_⟩
    simp only [text, Diagnostic.Cause.mark, List.append_assoc]
  | point _ second =>
    obtain ⟨cs, second⟩ := List.head?_eq_some_iff.mp second
    refine ⟨cs, ?_⟩
    simp [text, second, Diagnostic.Cause.mark]
  | @comment before fs body =>
    refine ⟨body, ?_⟩
    simp [text, gapText, Filler.text, Diagnostic.Cause.mark]
  | later _ ih => simpa only [text, List.append_assoc] using ih

/-- Only a comment that the end of the source leaves open is told of a gap. -/
theorem gapDiagnostics_cases {fs : List Filler} {rest : List Char} (isGap : IsGap fs rest) :
    (∀ p, gapDiagnostics p fs = []) ∨
      rest = [] ∧ ∃ closed body, fs = closed ++ [.openComment body] ∧
        ∀ p, gapDiagnostics p fs = [⟨.unterminatedComment, p.after (gapText closed)⟩] := by
  induction fs with
  | nil => exact Or.inl fun p => rfl
  | cons f fs ih =>
    obtain ⟨formed, ends, isGap⟩ := isGap
    cases f with
    | openComment body =>
      obtain ⟨nothing, done⟩ := List.append_eq_nil_iff.mp ends
      obtain rfl := gapText_eq_nil nothing
      exact Or.inr ⟨done, [], body, rfl, fun p => rfl⟩
    | _ =>
      rcases ih isGap with none | ⟨done, closed, body, rfl, found⟩
      · exact Or.inl fun p => none _
      · refine Or.inr ⟨done, _ :: closed, body, rfl, fun p => ?_⟩
        rw [gapText_cons, Position.after_append]
        exact found _

theorem gapDiagnostics_eq_nil {fs : List Filler} {rest : List Char} (isGap : IsGap fs rest)
    (more : rest ≠ []) (p : Position) : gapDiagnostics p fs = [] := by
  rcases gapDiagnostics_cases isGap with none | ⟨done, -⟩
  · exact none p
  · exact absurd done more

theorem lexemeDiagnostics_locates {before : List Char} {gap : List Filler} {l : Lexeme}
    {rest : Tiling} {d : Diagnostic}
    (member : d ∈ lexemeDiagnostics (Position.start.after (before ++ gapText gap)) l rest.text) :
    ∃ at_, (tile gap l rest).Locates before at_ d.cause ∧ d.position = Position.ofPrefix at_ := by
  obtain ⟨kind, spelled⟩ := l
  unfold lexemeDiagnostics at member
  dsimp only at member
  split at member
  · obtain rfl := List.mem_singleton.mp member
    exact ⟨_, .unknown, Position.start_after _⟩
  · next second =>
    split at member
    · next point =>
      obtain rfl := List.mem_singleton.mp member
      rw [← Position.after_append]
      refine ⟨_, .point (List.contains_iff_mem.mp point) ?_, Position.start_after _⟩
      rw [second, List.head?_cons]
    · cases member
  · cases member

theorem diagnostics_locates {L : Tiling} (exact_ : L.Exact) (before : List Char) :
    ∀ d ∈ L.diagnostics (Position.start.after before), ∃ at_,
      L.Locates before at_ d.cause ∧ d.position = Position.ofPrefix at_ := by
  induction L generalizing before with
  | last gap =>
    intro d member
    rw [diagnostics] at member
    rcases gapDiagnostics_cases exact_ with none | ⟨-, closed, body, rfl, found⟩
    · rw [none] at member
      cases member
    · rw [found, List.mem_singleton] at member
      rw [member, ← Position.after_append]
      exact ⟨_, .comment, Position.start_after _⟩
  | tile gap l rest ih =>
    obtain ⟨isGap, fits, -, exact_⟩ := exact_
    have more : l.text ++ rest.text ≠ [] := by simp [fits.ne_nil]
    intro d member
    simp only [diagnostics, gapDiagnostics_eq_nil isGap more, List.nil_append, List.mem_append,
      ← Position.after_append] at member
    rcases member with here | behind
    · exact lexemeDiagnostics_locates here
    · obtain ⟨at_, located, place⟩ := ih exact_ _ d behind
      exact ⟨at_, .later located, place⟩

end Tiling

/-- Tokens and diagnostics carry the positions of their offsets, where a line ends at a line feed
only. So the row and column of a token lead back to its text, both are at least one, and tokens
are told in the order of reading. -/
theorem scan_places (source : String) :
    (∃ L : Tiling, L.text = source.toList ∧ L.Exact ∧
      (∀ before l, (before, l) ∈ L.sites [] → before ++ l.text <+: source.toList) ∧
      (scan source).1 = (L.sites []).map (fun (before, l) =>
        Token.located l.kind l.text (Position.ofPrefix before)) ∧
      ∀ d ∈ (scan source).2, ∃ before, L.Locates [] before d.cause ∧
        before ++ d.cause.mark <+: source.toList ∧ d.position = Position.ofPrefix before) ∧
    (∀ t ∈ (scan source).1, t.StandsIn source.toList) ∧
    (scan source).1.Pairwise Token.Before := by
  obtain ⟨L, text, exact_⟩ := Tiling.exists_exact source.toList
  have tokens := L.tokens_eq_sites []
  have sites : ∀ before l, (before, l) ∈ L.sites [] → l.Fits ∧ before ++ l.text <+: L.text :=
    fun before l site => Tiling.mem_sites exact_ site
  rw [Tiling.scan_eq text exact_, ← text]
  refine ⟨⟨L, rfl, exact_, fun before l site => (sites before l site).2, tokens, ?_⟩, ?_,
    L.tokens_pairwise exact_ _⟩
  · intro d member
    obtain ⟨before, located, place⟩ := Tiling.diagnostics_locates exact_ [] d member
    exact ⟨before, located, located.mark, place⟩
  · intro t member
    rw [show Position.start = Position.start.after [] from rfl, tokens, List.mem_map] at member
    obtain ⟨⟨before, l⟩, site, rfl⟩ := member
    obtain ⟨fits, rest, whole⟩ := sites before l site
    rw [← whole, List.append_assoc]
    exact Token.located_standsIn l.kind fun feed => absurd (fits.not_isBlank _ feed) (by decide)

end ExprLexer
