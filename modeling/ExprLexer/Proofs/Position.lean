import Mathlib.Data.List.DropRight
import ExprLexer.Position
import ExprLexer.Text.Pieces

/-!
# Positions of offsets

The position behind a text counts its line feeds and the characters of its last line
(`start_after`). Within one text it grows with the offset, so it determines the offset
(`after_prefix_inj`), and it finds the row that holds a piece of one line (`row_slice`).
-/

namespace ExprLexer

namespace Position

/-- The order of reading. -/
def Before (p q : Position) : Prop := p.line < q.line ∨ p.line = q.line ∧ p.column < q.column

theorem Before.irrefl (p : Position) : ¬ p.Before p := by
  unfold Before
  omega

theorem Before.trans {p q r : Position} (first : p.Before q) (second : q.Before r) :
    p.Before r := by
  unfold Before at *
  omega

theorem before_next (p : Position) (c : Char) : p.Before (p.next c) := by
  unfold Before next
  split
  · exact Or.inl (Nat.lt_succ_self _)
  · exact Or.inr ⟨rfl, Nat.lt_succ_self _⟩

theorem before_after {cs : List Char} (some_ : cs ≠ []) (p : Position) : p.Before (p.after cs) := by
  induction cs generalizing p with
  | nil => contradiction
  | cons c cs ih =>
    rw [after_cons]
    cases cs with
    | nil => exact before_next p c
    | cons d ds => exact (before_next p c).trans (ih (List.cons_ne_nil d ds) (p.next c))

/-- Two offsets of one text with the same position are the same. -/
theorem after_prefix_inj {p : Position} {a b s : List Char} (left : a <+: s) (right : b <+: s)
    (same : p.after a = p.after b) : a = b := by
  have nothing : ∀ {a d : List Char}, p.after a = p.after (a ++ d) → d = [] := by
    intro a d same
    by_contra more
    rw [after_append] at same
    have later := before_after more (p.after a)
    rw [← same] at later
    exact later.irrefl _
  rcases List.prefix_or_prefix_of_prefix left right with ⟨d, rfl⟩ | ⟨d, rfl⟩
  · rw [nothing same, List.append_nil]
  · rw [nothing same.symm, List.append_nil]

/-- The position behind `before`, counted without going through the text. -/
def ofPrefix (before : List Char) : Position :=
  ⟨1 + before.count '\n', 1 + (before.rtakeWhile (· ≠ '\n')).length⟩

theorem start_after (before : List Char) : start.after before = ofPrefix before := by
  induction before using List.reverseRecOn with
  | nil => rfl
  | append_singleton before c ih =>
    rw [after_append, ih, after_cons, after_nil, next]
    by_cases feed : c = '\n'
    · subst feed
      simp [ofPrefix]
      omega
    · simp [ofPrefix, feed, List.count_append]
      omega

end Position

/-! ### Rows -/

namespace Text

theorem pieces_feed (rest : List Char) : pieces '\n' ('\n' :: rest) = [] :: pieces '\n' rest :=
  if_pos rfl

theorem pieces_other {c : Char} {rest row : List Char} {rows : List (List Char)} (other : c ≠ '\n')
    (read : pieces '\n' rest = row :: rows) : pieces '\n' (c :: rest) = (c :: row) :: rows := by
  rw [pieces, if_neg other, read]

theorem exists_pieces (s : List Char) : ∃ row rows, pieces '\n' s = row :: rows := by
  induction s with
  | nil => exact ⟨[], [], rfl⟩
  | cons c s ih =>
    obtain ⟨row, rows, read⟩ := ih
    by_cases feed : c = '\n'
    · subst feed
      exact ⟨[], _, pieces_feed s⟩
    · exact ⟨c :: row, rows, pieces_other feed read⟩

theorem pieces_append {line rest row : List Char} {rows : List (List Char)} (noFeed : '\n' ∉ line)
    (read : pieces '\n' rest = row :: rows) :
    pieces '\n' (line ++ rest) = (line ++ row) :: rows := by
  induction line with
  | nil => exact read
  | cons c line ih =>
    rw [List.mem_cons, not_or] at noFeed
    exact pieces_other (Ne.symm noFeed.1) (ih noFeed.2)

/-- The rows from the one on which `before` ends. -/
theorem drop_pieces (before : List Char) {rest row : List Char} {rows : List (List Char)}
    (read : pieces '\n' rest = row :: rows) :
    (pieces '\n' (before ++ rest)).drop (before.count '\n') =
      (before.rtakeWhile (· ≠ '\n') ++ row) :: rows := by
  induction before using List.reverseRecOn generalizing rest row rows with
  | nil => simpa using read
  | append_singleton before c ih =>
    rw [List.append_assoc, List.singleton_append]
    by_cases feed : c = '\n'
    · subst feed
      have here := ih (pieces_feed rest)
      rw [List.count_append, List.count_singleton_self, ← List.drop_drop, here, List.drop_one,
        List.tail_cons, read]
      simp
    · have here := ih (pieces_other feed read)
      rw [List.count_append, List.count_singleton, if_neg (by simpa using feed), Nat.add_zero, here]
      simp [feed]

end Text

/-- The position of a piece of one line finds the piece in its row. -/
theorem Position.row_slice (before : List Char) {line : List Char} (rest : List Char)
    (noFeed : '\n' ∉ line) :
    ∃ row, (Text.pieces '\n' (before ++ (line ++ rest)))[(ofPrefix before).line - 1]? = some row ∧
      (row.drop ((ofPrefix before).column - 1)).take line.length = line := by
  obtain ⟨row, rows, read⟩ := Text.exists_pieces rest
  have here := Text.drop_pieces before (Text.pieces_append noFeed read)
  refine ⟨before.rtakeWhile (· ≠ '\n') ++ (line ++ row), ?_, ?_⟩
  · rw [ofPrefix, Nat.add_sub_cancel_left, ← List.head?_drop, here, List.head?_cons]
  · rw [ofPrefix, Nat.add_sub_cancel_left, List.drop_left, List.take_left]

end ExprLexer
