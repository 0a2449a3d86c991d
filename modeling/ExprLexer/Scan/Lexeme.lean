import ExprLexer.Token

/-!
# Lexemes

Numerals, words, operators and delimiters; any other character stands alone as an unknown lexeme.
A lexeme is the longest one of its class (`read_text` says that nothing is lost).
-/

namespace ExprLexer

structure Lexeme where
  kind : Kind
  text : List Char
  deriving DecidableEq, Repr

namespace Lexeme

def keywords : List String := ["cos", "float", "int", "return", "sin", "sqrt"]

def operators : List Char := ['*', '+', '-', '/', ';', '=', '^']

def delimiters : List Char := ['(', ')', ',', '\x7b', '\x7d']

/-- ASCII letters and the underscore start a word. -/
def isWordStart (c : Char) : Bool := c.isAlpha || c = '_'

def isWordChar (c : Char) : Bool := isWordStart c || c.isDigit

/-- The digits at the front of `s`, with at most one decimal point among or behind them. -/
def numeral (s : List Char) : List Char × List Char :=
  match s.dropWhile Char.isDigit with
  | '.' :: rest =>
    (s.takeWhile Char.isDigit ++ '.' :: rest.takeWhile Char.isDigit, rest.dropWhile Char.isDigit)
  | rest => (s.takeWhile Char.isDigit, rest)

def ofWord (text : List Char) : Lexeme :=
  ⟨if keywords.any (·.toList == text) then .keyword else .identifier, text⟩

def ofSymbol (c : Char) : Lexeme :=
  ⟨if operators.contains c then .operator
    else if delimiters.contains c then .delimiter else .unknown, [c]⟩

def read (c : Char) (rest : List Char) : Lexeme × List Char :=
  if c.isDigit then
    let (text, after) := numeral (c :: rest)
    (⟨.literal, text⟩, after)
  else if isWordStart c then
    (ofWord (c :: rest.takeWhile isWordChar), rest.dropWhile isWordChar)
  else (ofSymbol c, rest)

theorem numeral_append (s : List Char) : (numeral s).1 ++ (numeral s).2 = s := by
  unfold numeral
  split
  · next rest h =>
    rw [List.append_assoc, List.cons_append, List.takeWhile_append_dropWhile, ← h,
      List.takeWhile_append_dropWhile]
  · exact List.takeWhile_append_dropWhile

theorem read_text (c : Char) (rest : List Char) :
    (read c rest).1.text ++ (read c rest).2 = c :: rest := by
  unfold read
  split
  · exact numeral_append _
  · split
    · simp [ofWord, List.takeWhile_append_dropWhile]
    · rfl

theorem numeral_ne_nil {c : Char} {rest : List Char} (h : c.isDigit) :
    (numeral (c :: rest)).1 ≠ [] := by
  unfold numeral
  split <;> simp [h]

theorem read_ne_nil (c : Char) (rest : List Char) : (read c rest).1.text ≠ [] := by
  unfold read
  split
  · next h => exact numeral_ne_nil h
  · split <;> simp [ofWord, ofSymbol]

theorem length_read_lt (c : Char) (rest : List Char) :
    (read c rest).2.length < (c :: rest).length := by
  have h := List.length_pos_iff.2 (read_ne_nil c rest)
  have := congrArg List.length (read_text c rest)
  simp only [List.length_append] at this
  omega

end Lexeme

end ExprLexer
