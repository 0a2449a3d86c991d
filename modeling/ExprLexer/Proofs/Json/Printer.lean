import ExprLexer.Json.Printer
import ExprLexer.Proofs.Yaml.Flow
import ExprLexer.Proofs.Yaml.Writer

/-!
# JSON texts as YAML

A JSON string is a quoted scalar whose text is spelled in UTF-16 units (`writesAs_stringText`), and
an array or an object on several lines is a flow collection (`bracket_pretty`).
-/

namespace ExprLexer

namespace Text

/-- The UTF-16 units of a text. -/
def spelled (cs : List Char) : Points := cs.flatMap fun c => units c.toNat

/-- No character is beyond the first plane, so that each one is a single unit. -/
def FirstPlane (cs : List Char) : Prop := ∀ c ∈ cs, c.toNat < 0x10000

instance : DecidablePred FirstPlane := fun cs =>
  decidable_of_iff ((cs.all fun c => c.toNat < 0x10000) = true) (by simp [FirstPlane])

variable {n : Nat} {cs : List Char}

theorem units_small (small : n < 0x10000) : units n = [n] := if_pos small

theorem units_lt (point : n < 0x110000) : ∀ u ∈ units n, u < 0x10000 := by
  intro u member
  unfold units at member
  split at member
  · next small => rwa [List.mem_singleton.mp member]
  · simp only [List.mem_cons, List.not_mem_nil, or_false] at member
    omega

theorem spelled_eq (plane : FirstPlane cs) : spelled cs = Points.ofChars cs := by
  induction cs with
  | nil => rfl
  | cons c cs ih =>
    obtain ⟨first, later⟩ := List.forall_mem_cons.mp plane
    rw [spelled, List.flatMap_cons, units_small first, ← spelled, ih later]
    rfl

/-- The first unit of a pair is no character. -/
theorem toChars?_spelled_eq_none (beyond : ¬ FirstPlane cs) :
    Points.toChars? (spelled cs) = none := by
  induction cs with
  | nil => exact absurd nofun beyond
  | cons c cs ih =>
    rw [spelled, List.flatMap_cons, ← spelled]
    by_cases small : c.toNat < 0x10000
    · have later : ¬ FirstPlane cs := fun plane =>
        beyond (List.forall_mem_cons.mpr ⟨small, plane⟩)
      have valid : c.toNat.isValidChar := c.valid
      rw [units_small small, List.singleton_append, Points.toChars?, if_pos valid, ih later,
        Option.map_none]
    · have point := Text.toNat_lt c
      have surrogate : ¬ (0xD800 + (c.toNat - 0x10000) / 0x400).isValidChar := by
        unfold Nat.isValidChar
        omega
      rw [units, if_neg small, List.cons_append, Points.toChars?, if_neg surrogate]

end Text

namespace Json

open Yaml Text

variable {flow : Bool} {c : Char} {cs : List Char} {n : Nat}

/-! ### Strings -/

theorem stands_escapeUnit (unit : n < 0x10000) : Stands true (escapeUnit n) n :=
  stands_hex rfl (fun d => digitValue?_lowerDigit) (by decide) unit (by omega)

theorem stands_escapeChar (small : c.toNat < 0x10000) : Stands true (escapeChar c) c.toNat := by
  have short : ∀ {d e : Char}, Yaml.shortEscape? e = some d.toNat ∧ IsNarrow e → c = d →
      Stands true ['\\', e] c.toNat := by
    rintro d e ⟨escape, narrow⟩ rfl
    exact stands_short escape narrow
  refine stands_ite (short ⟨rfl, by decide⟩) fun quote => ?_
  refine stands_ite (short ⟨rfl, by decide⟩) fun slash => ?_
  iterate 5
    refine stands_ite (short ⟨rfl, by decide⟩) fun _ => ?_
  refine stands_ite (fun narrow => ?_) fun _ => ?_
  · exact stands_narrow narrow quote fun _ => slash
  · rw [units_small small, List.flatMap_singleton]
    exact stands_escapeUnit small

theorem escapeChar_large (large : ¬ c.toNat < 0x10000) :
    escapeChar c = (units c.toNat).flatMap escapeUnit := by
  have other : ∀ d : Char, d.toNat < 0x10000 → c ≠ d := fun d small same => large (same ▸ small)
  have wide : ¬ (' ' ≤ c ∧ c ≤ '~') := fun narrow => large (Nat.lt_of_le_of_lt narrow.2 (by decide))
  unfold escapeChar
  rw [if_neg (other '"' (by decide)), if_neg (other '\\' (by decide)),
    if_neg (other '\n' (by decide)), if_neg (other '\r' (by decide)),
    if_neg (other '\t' (by decide)), if_neg (other '\x08' (by decide)),
    if_neg (other '\x0c' (by decide)), if_neg wide]

theorem exists_pieces (c : Char) : ∃ pieces : Pieces, pieces.text = escapeChar c ∧
    pieces.points = units c.toNat ∧ ∀ p ∈ pieces, Stands true p.1 p.2 := by
  by_cases small : c.toNat < 0x10000
  · refine ⟨[(escapeChar c, c.toNat)], List.flatMap_singleton _ _, (units_small small).symm, ?_⟩
    exact List.forall_mem_singleton.mpr (stands_escapeChar small)
  · refine ⟨(units c.toNat).map fun u => (escapeUnit u, u), ?_, ?_, ?_⟩
    · rw [escapeChar_large small, Pieces.text, List.flatMap_map]
    · rw [Pieces.points, List.map_map]
      exact List.map_id _
    · intro p member
      obtain ⟨u, unit, rfl⟩ := List.mem_map.mp member
      exact stands_escapeUnit (units_lt (Text.toNat_lt c) u unit)

theorem writesAs_stringText (cs : List Char) :
    WritesAs flow .str (stringText cs) (spelled cs) := by
  have whole : ∃ pieces : Pieces, pieces.text = cs.flatMap escapeChar ∧
      pieces.points = spelled cs ∧ ∀ p ∈ pieces, Stands true p.1 p.2 := by
    induction cs with
    | nil => exact ⟨[], rfl, rfl, nofun⟩
    | cons c cs ih =>
      obtain ⟨front, text, points, stands⟩ := exists_pieces c
      obtain ⟨back, texts, units_, standing⟩ := ih
      refine ⟨front ++ back, ?_, ?_, List.forall_mem_append.mpr ⟨stands, standing⟩⟩
      · rw [List.flatMap_cons, ← text, ← texts]
        exact List.flatMap_append
      · rw [spelled, List.flatMap_cons, ← spelled, ← points, ← units_]
        exact List.map_append
  obtain ⟨pieces, text, points, stands⟩ := whole
  have writes : WritesAs flow .str _ _ := writesAs_quoted stands
  rwa [text, points] at writes

/-! ### Collections -/

theorem commaLines_eq (n : Nat) (after x : List Char) (more : List (List Char)) :
    ((x :: more).intersperse (commaLine n)).flatten ++ after = commaLines n after x more := by
  induction more generalizing x with
  | nil => simp [commaLines]
  | cons y more ih =>
    rw [commaLines, ← ih]
    simp [List.intersperse]

theorem bracket_pretty (mapping : Bool) (depth : Nat) (x : List Char) (more : List (List Char)) :
    bracket .pretty depth (openingBracket mapping) (closingBracket mapping) (x :: more) =
      bracketed mapping (2 * (depth + 1)) (2 * depth) x more := by
  rw [bracketed, ← commaLines_eq]
  simp [bracket, Layout.newline, Layout.separator, Layout.pretty, commaLine, Input.indentation]

end Json

end ExprLexer
