/-!
# Positions

Lines and columns counted from one. Only a line feed starts a line, and every other character is
one column wide.
-/

namespace ExprLexer

structure Position where
  line : Nat
  column : Nat
  deriving DecidableEq, Repr

namespace Position

def start : Position := ⟨1, 1⟩

def next (p : Position) (c : Char) : Position :=
  if c = '\n' then ⟨p.line + 1, 1⟩ else ⟨p.line, p.column + 1⟩

/-- The position behind the text `cs` that starts at `p`. -/
def after (p : Position) (cs : List Char) : Position := cs.foldl next p

@[simp] theorem after_nil (p : Position) : p.after [] = p := rfl

@[simp] theorem after_cons (p : Position) (c : Char) (cs : List Char) :
    p.after (c :: cs) = (p.next c).after cs := rfl

theorem after_append (p : Position) (a b : List Char) :
    p.after (a ++ b) = (p.after a).after b := List.foldl_append

end Position

end ExprLexer
