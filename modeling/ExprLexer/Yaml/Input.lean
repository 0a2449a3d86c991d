import ExprLexer.Yaml.Fault

/-!
# Characters of a document

The classes of characters that the grammar speaks of, and the place of reading in a text. Columns
count from zero and pass over byte order marks.
-/

namespace ExprLexer.Yaml

def isAllowed (c : Char) : Bool :=
  let n := c.toNat
  n == 0x09 || n == 0x0A || n == 0x0D || (0x20 ≤ n && n ≤ 0x7E) || n == 0x85
    || (0xA0 ≤ n && n ≤ 0xFFFD) || 0x10000 ≤ n

def isBreak (c : Char) : Bool :=
  c = '\n' || c = '\r' || c = '\x85' || c = '\u2028' || c = '\u2029'

def isBlank (c : Char) : Bool := c = ' ' || c = '\t'

def isNameChar (c : Char) : Bool := c.isAlphanum || c = '-' || c = '_'

/-- Whether a word ends here: at a blank, a line break or the end of the text. -/
def endsWord : List Char → Bool
  | [] => true
  | c :: _ => isBlank c || isBreak c

def endsLine : List Char → Bool
  | [] => true
  | c :: _ => isBreak c

/-- Whether a space, a line break or the end of the text stands here. -/
def endsEntry : List Char → Bool
  | [] => true
  | c :: _ => c = ' ' || isBreak c

def atSeparator : List Char → Bool
  | '-' :: '-' :: '-' :: rest => endsWord rest
  | '.' :: '.' :: '.' :: rest => endsWord rest
  | _ => false

structure Mark where
  index : Nat
  line : Nat
  column : Nat
  deriving DecidableEq, Repr

namespace Mark

/-- The mark behind the character `c`, which `rest` follows. A carriage return before a line feed
does not count as a line break of its own. -/
def next (m : Mark) (c : Char) (rest : List Char) : Mark :=
  if isBreak c && !(c = '\r' && rest.head? = some '\n') then ⟨m.index + 1, m.line + 1, 0⟩
  else if c = '\ufeff' then ⟨m.index + 1, m.line, m.column⟩
  else ⟨m.index + 1, m.line, m.column + 1⟩

end Mark

structure Input where
  rest : List Char
  mark : Mark
  deriving DecidableEq, Repr

namespace Input

def start (cs : List Char) : Input := ⟨cs, 0, 0, 0⟩

def step (i : Input) : Input :=
  match i.rest with
  | [] => i
  | c :: rest => ⟨rest, i.mark.next c rest⟩

def skip : Nat → Input → Input
  | 0, i => i
  | n + 1, i => skip n i.step

def spanFrom (p : Char → Bool) : List Char → Mark → List Char × Input
  | [], m => ([], ⟨[], m⟩)
  | c :: rest, m =>
    if p c then
      let (cs, i) := spanFrom p rest (m.next c rest)
      (c :: cs, i)
    else ([], ⟨c :: rest, m⟩)

/-- The longest run of characters with `p`, and the input behind it. -/
def span (p : Char → Bool) (i : Input) : List Char × Input := spanFrom p i.rest i.mark

def skipWhile (p : Char → Bool) (i : Input) : Input := (i.span p).2

/-- The line break at the front, as one character, and the input behind it. All common line breaks
count as a line feed. -/
def lineBreak? (i : Input) : Option (Char × Input) :=
  match i.rest with
  | '\r' :: '\n' :: _ => some ('\n', i.step.step)
  | '\u2028' :: _ => some ('\u2028', i.step)
  | '\u2029' :: _ => some ('\u2029', i.step)
  | c :: _ => if isBreak c then some ('\n', i.step) else none
  | [] => none

/-- The input behind spaces and, if one follows, a comment. -/
def skipComment (i : Input) : Input :=
  let i := i.skipWhile (· = ' ')
  match i.rest with
  | '#' :: _ => i.skipWhile (!isBreak ·)
  | _ => i

end Input

end ExprLexer.Yaml
