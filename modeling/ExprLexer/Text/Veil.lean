import ExprLexer.Text.Points

/-!
# Veiled text

Text with surrogates is no string. Under a veil it is one: each surrogate is moved to a character
for private use. Whatever shows characters unchanged shows the text under two veils alike but for
the surrogates, and the difference tells them (`unveil`).
-/

namespace ExprLexer.Text

/-- The veils move surrogates to the fifteenth and to the sixteenth plane. -/
def veils : Nat × Nat := (0xF0000, 0x100000)

def veil (shift : Nat) (t : Points) : String :=
  String.ofList (t.map fun n => Char.ofNat (if Points.isSurrogate n then n + shift else n))

/-- The text that shows as `a` under the first veil and as `b` under the second one. -/
def unveilPoints (a b : Points) : Points :=
  List.zipWith (fun m n => if m = n then m else m - veils.1) a b

def unveil (a b : String) : Points := unveilPoints (Points.ofString a) (Points.ofString b)

end ExprLexer.Text
