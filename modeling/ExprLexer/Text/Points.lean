/-!
# Code points

Text whose code points may be surrogates. An escape in a document can write a surrogate on its
own, which no `Char` is; `toString?` tells such text from an ordinary string.
-/

namespace ExprLexer.Text

abbrev Points := List Nat

namespace Points

def ofChars (cs : List Char) : Points := cs.map Char.toNat

def ofString (s : String) : Points := ofChars s.toList

def isSurrogate (n : Nat) : Bool := 0xD800 ≤ n && n ≤ 0xDFFF

/-- The characters of the text, unless a code point is none. -/
def toChars? : Points → Option (List Char)
  | [] => some []
  | n :: rest =>
    if n.isValidChar then (toChars? rest).map (Char.ofNat n :: ·) else none

def toString? (t : Points) : Option String := (toChars? t).map String.ofList

end Points

end ExprLexer.Text
