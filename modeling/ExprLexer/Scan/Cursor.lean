import ExprLexer.Diagnostic
import ExprLexer.Scan.Gap
import ExprLexer.Scan.Lexeme

/-!
# The scan

A cursor is the source text still to be read and its position. One turn passes a gap and reads a
lexeme; a run repeats turns to the end. Every turn that yields a token leaves less to read
(`length_lt_of_turn`), so the run ends.
-/

namespace ExprLexer

structure Cursor where
  rest : List Char
  position : Position
  deriving DecidableEq, Repr

def gapDiagnostics (p : Position) : List Filler → List Diagnostic
  | [] => []
  | .openComment body :: fs =>
    ⟨.unterminatedComment, p⟩ :: gapDiagnostics (p.after (Filler.openComment body).text) fs
  | f :: fs => gapDiagnostics (p.after f.text) fs

def lexemeDiagnostics (p : Position) (l : Lexeme) (rest : List Char) : List Diagnostic :=
  match l.kind, l.text, rest with
  | .unknown, [c], _ => [⟨.unknownCharacter c, p⟩]
  | .literal, text, '.' :: _ =>
    if text.contains '.' then [⟨.extraDecimalPoint text, p.after text⟩] else []
  | _, _, _ => []

inductive Turn where
  | token (token : Token) (found : List Diagnostic) (after : Cursor)
  | finish (found : List Diagnostic) (after : Cursor)
  deriving DecidableEq, Repr

namespace Cursor

def ofSource (s : List Char) : Cursor := ⟨s, .start⟩

def turn (c : Cursor) : Turn :=
  let (fs, rest) := gap c.rest
  let p := c.position.after (gapText fs)
  let found := gapDiagnostics c.position fs
  match rest with
  | [] => .finish found ⟨[], p⟩
  | ch :: rest =>
    let (l, after) := Lexeme.read ch rest
    .token (Token.located l.kind l.text p) (found ++ lexemeDiagnostics p l after)
      ⟨after, p.after l.text⟩

theorem length_lt_of_turn {c after : Cursor} {t : Token} {found : List Diagnostic}
    (h : c.turn = .token t found after) : after.rest.length < c.rest.length := by
  unfold turn at h
  have hg := congrArg List.length (gapText_gap c.rest)
  simp only [List.length_append] at hg
  simp only at h
  split at h
  · simp at h
  · next ch rest hr =>
    simp only [Turn.token.injEq] at h
    obtain ⟨-, -, rfl⟩ := h
    have := Lexeme.length_read_lt ch rest
    rw [hr] at hg
    simp only
    omega

def run (c : Cursor) : List Token × List Diagnostic :=
  match _h : c.turn with
  | .token t found after =>
    let (tokens, diagnostics) := after.run
    (t :: tokens, found ++ diagnostics)
  | .finish found _ => ([], found)
termination_by c.rest.length
decreasing_by exact length_lt_of_turn ‹_›

theorem run_of_token {c after : Cursor} {t : Token} {found : List Diagnostic}
    (h : c.turn = .token t found after) : c.run = (t :: after.run.1, found ++ after.run.2) := by
  rw [run]
  split
  · next read =>
    rw [h] at read
    cases read
    rfl
  · next read => rw [h] at read; cases read

theorem run_of_finish {c after : Cursor} {found : List Diagnostic}
    (h : c.turn = .finish found after) : c.run = ([], found) := by
  rw [run]
  split
  · next read => rw [h] at read; cases read
  · next read =>
    rw [h] at read
    cases read
    rfl

end Cursor

/-- The tokens of a source text and the diagnostics met on the way. -/
def scan (source : String) : List Token × List Diagnostic := (Cursor.ofSource source.toList).run

end ExprLexer
