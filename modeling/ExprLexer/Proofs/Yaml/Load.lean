import ExprLexer.Proofs.Yaml.Fault
import ExprLexer.Proofs.Yaml.Levels
import ExprLexer.Proofs.Yaml.Misfit

/-!
# Documents that do not load

A document does not load if it cannot be read or a part of it cannot be built (`load_error_iff`).
Unless it is malformed, an escape by number or the text of a scalar is to blame (`Fails.blame`).
-/

namespace ExprLexer.Yaml

variable {text : List Char} {f : Fault}

theorem of_map_error {x : Except ε α} {g : α → β} {e : ε} (failed : x.map g = .error e) :
    x = .error e := by
  cases x with
  | error e' => exact congrArg Except.error (Except.error.inj failed)
  | ok a => cases failed

mutual

theorem merged_malformed : ∀ {entries : List (Node × Node)} {f : Fault},
    merged entries = .error f → f = .malformed
  | (k, v) :: rest, f, failed => by
    rw [merged] at failed
    split at failed
    · split at failed
      · rename_i inner
        cases failed
        exact broughtBy_malformed inner
      · exact merged_malformed (of_map_error failed)
    · exact merged_malformed (of_map_error failed)

theorem broughtBy_malformed : ∀ {v : Node} {f : Fault}, broughtBy v = .error f → f = .malformed
  | .mapping _ entries, f, failed => by
    rw [broughtBy] at failed
    exact merged_malformed (of_map_error failed)
  | .sequence _ items, f, failed => broughtByAll_malformed failed
  | .scalar .., _, failed => (Except.error.inj failed).symm

theorem broughtByAll_malformed : ∀ {items : List Node} {f : Fault},
    broughtByAll items = .error f → f = .malformed
  | .mapping tag entries :: rest, f, failed => by
    rw [broughtByAll] at failed
    split at failed
    · rename_i inner
      cases failed
      exact merged_malformed inner
    · exact broughtByAll_malformed (of_map_error failed)
  | .sequence .. :: _, _, failed => (Except.error.inj failed).symm
  | .scalar .. :: _, _, failed => (Except.error.inj failed).symm

end

end ExprLexer.Yaml
