import ExprLexer.Scan.Cursor
import ExprLexer.Proofs.Scan.Lexeme

/-!
# Tilings

A tiling lays a text out as lexemes with gaps around them. Each text has an exact tiling
(`exists_exact`), and a scan of the text gives its tokens and diagnostics (`run_text`).
-/

namespace ExprLexer

inductive Tiling where
  | last (gap : List Filler)
  | tile (gap : List Filler) (lexeme : Lexeme) (rest : Tiling)
  deriving DecidableEq, Repr

namespace Tiling

def text : Tiling → List Char
  | last gap => gapText gap
  | tile gap l rest => gapText gap ++ (l.text ++ rest.text)

def lexemes : Tiling → List Lexeme
  | last _ => []
  | tile _ l rest => l :: rest.lexemes

def tokens (p : Position) : Tiling → List Token
  | last _ => []
  | tile gap l rest =>
    let q := p.after (gapText gap)
    Token.located l.kind l.text q :: rest.tokens (q.after l.text)

def diagnostics (p : Position) : Tiling → List Diagnostic
  | last gap => gapDiagnostics p gap
  | tile gap l rest =>
    let q := p.after (gapText gap)
    gapDiagnostics p gap ++ lexemeDiagnostics q l rest.text ++ rest.diagnostics (q.after l.text)

/-- Gaps and lexemes are those of the language, and each reaches as far as it can: every gap is a
gap in front of what follows it, and no lexeme goes on into what follows it. -/
def Exact : Tiling → Prop
  | last gap => IsGap gap []
  | tile gap l rest =>
    IsGap gap (l.text ++ rest.text) ∧ l.Fits ∧ l.EndsBefore rest.text ∧ rest.Exact

end Tiling

/-! ### One turn -/

theorem Cursor.turn_last {gap : List Filler} (isGap : IsGap gap []) (p : Position) :
    Cursor.turn ⟨gapText gap, p⟩ =
      .finish (gapDiagnostics p gap) ⟨[], p.after (gapText gap)⟩ := by
  have read := gap_append isGap rfl
  rw [List.append_nil] at read
  simp only [Cursor.turn, read]

theorem Cursor.turn_tile {gap : List Filler} {l : Lexeme} {rest : List Char}
    (isGap : IsGap gap (l.text ++ rest)) (fits : l.Fits) (ends : l.EndsBefore rest) (p : Position) :
    Cursor.turn ⟨gapText gap ++ (l.text ++ rest), p⟩ =
      .token (Token.located l.kind l.text (p.after (gapText gap)))
        (gapDiagnostics p gap ++ lexemeDiagnostics (p.after (gapText gap)) l rest)
        ⟨rest, (p.after (gapText gap)).after l.text⟩ := by
  obtain ⟨c, cs, start, -⟩ := fits.head
  have text : l.text ++ rest = c :: (cs ++ rest) := by rw [start, List.cons_append]
  have read := gap_append isGap (Lexeme.filler?_append_eq_none fits ends)
  rw [text] at read
  simp only [Cursor.turn, text, read, Lexeme.read_append fits ends text]

namespace Tiling

/-- A scan of an exact tiling's text reads the tiling. -/
theorem run_text {L : Tiling} (exact_ : L.Exact) (p : Position) :
    Cursor.run ⟨L.text, p⟩ = (L.tokens p, L.diagnostics p) := by
  induction L generalizing p with
  | last gap => exact Cursor.run_of_finish (Cursor.turn_last exact_ p)
  | tile gap l rest ih =>
    obtain ⟨isGap, fits, ends, exact_⟩ := exact_
    rw [text, Cursor.run_of_token (Cursor.turn_tile isGap fits ends p), ih exact_]
    rfl

theorem exists_exact (s : List Char) : ∃ L : Tiling, L.text = s ∧ L.Exact := by
  obtain ⟨isGap, stop⟩ := isGap_gap s
  have covered := gapText_gap s
  cases after : (gap s).2 with
  | nil =>
    rw [after] at isGap covered
    exact ⟨.last (gap s).1, by rwa [List.append_nil] at covered, isGap⟩
  | cons c cs =>
    rw [after] at isGap stop covered
    have whole := Lexeme.read_text c cs
    obtain ⟨fits, ends⟩ := Lexeme.read_grammar stop
    have shorter : (Lexeme.read c cs).2.length < s.length := by
      have := Lexeme.length_read_lt c cs
      have := congrArg List.length covered
      rw [List.length_append] at this
      omega
    obtain ⟨rest, text, exact_⟩ := exists_exact (Lexeme.read c cs).2
    refine ⟨.tile (gap s).1 (Lexeme.read c cs).1 rest, ?_, ?_⟩
    · rw [Tiling.text, text, whole, covered]
    · rw [← text] at whole ends
      exact ⟨whole.symm ▸ isGap, fits, ends, exact_⟩
termination_by s.length

theorem scan_eq {source : String} {L : Tiling} (text : L.text = source.toList)
    (exact_ : L.Exact) : scan source = (L.tokens .start, L.diagnostics .start) := by
  rw [scan, Cursor.ofSource, ← text, run_text exact_]

theorem scan_unknown {c : Char} (fits : Lexeme.Fits ⟨.unknown, [c]⟩) :
    scan (String.ofList [c]) =
      ([⟨.unknown, String.ofList [c], 1, 1⟩], [⟨.unknownCharacter c, ⟨1, 1⟩⟩]) :=
  scan_eq (L := .tile [] ⟨.unknown, [c]⟩ (.last [])) String.toList_ofList.symm
    ⟨trivial, fits, nofun, trivial⟩

end Tiling

/-- A turn passes the gap at the end of the text, or a gap and the lexeme behind it. -/
theorem Cursor.turn_cases (c : Cursor) :
    (∃ gap, c.rest = gapText gap ∧ IsGap gap [] ∧
      c.turn = .finish (gapDiagnostics c.position gap) ⟨[], c.position.after (gapText gap)⟩) ∨
    ∃ gap l rest, c.rest = gapText gap ++ (l.text ++ rest) ∧ IsGap gap (l.text ++ rest) ∧ l.Fits ∧
      c.turn = .token (Token.located l.kind l.text (c.position.after (gapText gap)))
        (gapDiagnostics c.position gap ++
          lexemeDiagnostics (c.position.after (gapText gap)) l rest)
        ⟨rest, (c.position.after (gapText gap)).after l.text⟩ := by
  obtain ⟨rest, p⟩ := c
  obtain ⟨L, rfl, exact_⟩ := Tiling.exists_exact rest
  cases L with
  | last gap => exact .inl ⟨gap, rfl, exact_, turn_last exact_ p⟩
  | tile gap l rest =>
    obtain ⟨isGap, fits, ends, -⟩ := exact_
    exact .inr ⟨gap, l, rest.text, rfl, isGap, fits, turn_tile isGap fits ends p⟩

def Token.lexeme (t : Token) : Lexeme := ⟨t.kind, t.text.toList⟩

theorem Tiling.map_lexeme_tokens (L : Tiling) (p : Position) :
    (L.tokens p).map Token.lexeme = L.lexemes := by
  induction L generalizing p with
  | last gap => rfl
  | tile gap l rest ih =>
    simp only [tokens, lexemes, List.map_cons, ih, Token.lexeme, Token.located,
      String.toList_ofList]

/-- Scanning is lossless: the tokens and the gaps between them make up the source, gaps and tokens
are those of the language, and every token is the longest one at its place. -/
theorem scan_tiles (source : String) :
    ∃ L : Tiling, L.text = source.toList ∧ L.lexemes = (scan source).1.map Token.lexeme ∧
      L.Exact := by
  obtain ⟨L, text, exact_⟩ := Tiling.exists_exact source.toList
  refine ⟨L, text, ?_, exact_⟩
  rw [Tiling.scan_eq text exact_, Tiling.map_lexeme_tokens]

end ExprLexer
