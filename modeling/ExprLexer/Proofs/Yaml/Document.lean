import ExprLexer.Proofs.Yaml.Writer
import ExprLexer.Yaml.Document

/-!
# Documents of records

What the nodes of strings, numerals, mappings and sequences build when no part of them fails.
-/

namespace ExprLexer

namespace Yaml

variable {fuel : Nat} (depth : Nat)

theorem build_scalar {tag : Tag} (simple : tag.isCollection = false) (text : Text.Points) :
    build (fuel + 1) depth (.scalar tag text) = (valueOf tag text).mapError (depth, ·) := by
  cases tag with
  | seq | map | omap | pairs | set => cases simple
  | _ => rfl

theorem build_string (text : Text.Points) :
    build (fuel + 1) depth (.scalar .str text) = .ok (.text text) := by
  have value : valueOf .str text = .ok (.text text) := by
    unfold valueOf
    split
    · next cs read => rw [scalarValue, Text.Points.ofChars_of_toChars? read]
    · rfl
  rw [build_scalar depth rfl, value]
  rfl

theorem build_numeral (fuel : Nat) {n : Nat} (positive : 0 < n) (short : n < 10 ^ maxDigits) :
    build (fuel + 1) depth (.scalar .int (Text.Points.ofChars (Nat.toDigits 10 n))) =
      .ok (.int n) := by
  have value : valueOf .int (Text.Points.ofChars (Nat.toDigits 10 n)) = .ok (.int n) := by
    rw [valueOf, Text.Points.toChars?_ofChars]
    dsimp only [scalarValue]
    rw [intValue_digits positive short]
    rfl
  rw [build_scalar depth rfl, value]
  rfl

/-- A node and what it builds. -/
abbrev Built := Node × Data

theorem each_of_ok {make : α → Build β} {part : γ → α} {result : γ → β} {items : List γ}
    (built : ∀ x ∈ items, make (part x) = .ok (result x)) :
    Build.each make (items.map part) = .ok (items.map result) := by
  induction items with
  | nil => rfl
  | cons x items ih =>
    obtain ⟨first, later⟩ := List.forall_mem_cons.mp built
    rw [Build.each, List.map_cons, List.foldr_cons, ← Build.each, ih later, first]
    rfl

theorem build_sequence {items : List Built}
    (built : ∀ x ∈ items, build fuel (depth + 1) x.1 = .ok x.2) :
    build (fuel + 1) depth (.sequence .seq (items.map Prod.fst)) =
      .ok (.list (items.map Prod.snd)) := by
  exact congrArg (Except.map Data.list) (each_of_ok built)

/-- The entries of a mapping whose keys are strings. -/
def namedEntries (es : List (Text.Points × Built)) : List (Node × Node) :=
  es.map fun e => (.scalar .str e.1, e.2.1)

theorem merged_namedEntries (es : List (Text.Points × Built)) :
    merged (namedEntries es) = .ok ⟨[], namedEntries es⟩ := by
  induction es with
  | nil => rfl
  | cons e es ih =>
    have step : merged (namedEntries (e :: es)) =
        (merged (namedEntries es)).map fun m =>
          { m with own := (.scalar .str e.1, e.2.1) :: m.own } := rfl
    rw [step, ih]
    rfl

theorem build_mapping {es : List (Text.Points × Built)}
    (built : ∀ e ∈ es, build (fuel + 1) (depth + 1) e.2.1 = .ok e.2.2) :
    build (fuel + 2) depth (.mapping .map (namedEntries es)) =
      .ok (.ofEntries (es.map fun e => (.text e.1, e.2.2))) := by
  have whole : Build.entries (build (fuel + 1) (depth + 1)) (depth + 1) (namedEntries es) =
      .ok (es.map fun e => (.text e.1, e.2.2)) := by
    rw [Build.entries, merged_namedEntries]
    refine each_of_ok fun e member => ?_
    have key : isKey (.scalar .str e.1) = true := rfl
    rw [Build.entry, if_pos key, build_string, built e member]
    rfl
  exact congrArg (Except.map Data.ofEntries) whole

/-! ### Heights -/

theorem le_height_mapping (e : Text.Points × Built) (es : List (Text.Points × Built)) :
    2 ≤ height (.mapping .map (namedEntries (e :: es))) := by
  have key : height (.scalar .str e.1) = 1 := by rw [height]
  rw [namedEntries, List.map_cons, height, heightEntries, key]
  omega

theorem load_of_build {cs : List Char} {items : List Built} {x : Built} {bound : Nat}
    (document : Node.ofTokens (tokens cs) = .ok (some (.sequence .seq ((x :: items).map Prod.fst))))
    (high : bound ≤ height x.1)
    (built : ∀ fuel, ∀ y ∈ x :: items, build (fuel + bound) 1 y.1 = .ok y.2) :
    load cs = .ok (.list ((x :: items).map Prod.snd)) := by
  have tall : bound + 1 ≤ height (.sequence .seq ((x :: items).map Prod.fst)) := by
    rw [List.map_cons, height, heightItems]
    omega
  obtain ⟨fuel, enough⟩ : ∃ fuel, height (.sequence .seq ((x :: items).map Prod.fst)) =
      fuel + bound + 1 := ⟨_, (Nat.sub_add_cancel tall).symm⟩
  rw [load, document]
  dsimp only
  rw [enough, build_sequence 0 (built fuel)]

end Yaml

end ExprLexer
