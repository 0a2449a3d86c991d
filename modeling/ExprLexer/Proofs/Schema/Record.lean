import ExprLexer.Proofs.Data.Keys
import ExprLexer.Proofs.Text.Points
import ExprLexer.Schema.Record

/-!
# Entries of records

What the fields of a record find. In a mapping without repetition, the entry of a field is found by
any of its names (`find?_eq_some_iff`), if the field is given once.
-/

namespace ExprLexer.Schema

open Text

variable {entries : List (Data × Data)} {names : List String} {name : String} {d : Data}

theorem required_eq_ok_iff {α : Type} {read : Data → Except Cause α} {a : α} :
    required d entries name read = .ok a ↔
      ∃ v, Data.lookup? (Points.ofString name) entries = some v ∧ read v = .ok a := by
  rw [required, find?]
  cases Data.lookup? (Points.ofString name) entries with
  | none =>
    constructor
    · intro value
      cases value
    · rintro ⟨v, found, -⟩
      cases found
  | some v =>
    cases value : read v with
    | error c => simp [value]
    | ok b => simp [value]

theorem extras_eq_nil_iff {used : List String} {entries : List (Data × Data)} :
    extras used entries = [] ↔ ∀ e ∈ entries, ∃ name ∈ used, e.1 = .ofString name := by
  rw [extras, List.filterMap_eq_nil_iff]
  refine forall₂_congr fun e _ => ?_
  obtain ⟨key, value⟩ := e
  constructor
  · intro used_
    dsimp only at used_
    split at used_
    · next t =>
      split at used_
      · next name same =>
        obtain rfl := Points.toString?_eq_some_iff.mp same
        by_cases among : used.contains name = true
        · exact ⟨name, List.contains_iff_mem.mp among, rfl⟩
        · rw [if_neg among] at used_
          cases used_
      · cases used_
    · cases used_
  · rintro ⟨name, among, rfl⟩
    dsimp only [Data.ofString]
    rw [Points.toString?_ofString]
    exact if_pos (List.contains_iff_mem.mpr among)

/-! ### Fields with several names -/

/-- There is an entry under the name. -/
def Has (entries : List (Data × Data)) (name : String) : Prop :=
  ∃ d, (Data.ofString name, d) ∈ entries

/-- The record gives a field under no more than one of its names. -/
def Once (entries : List (Data × Data)) (names : List String) : Prop :=
  ∀ a ∈ names, ∀ b ∈ names, Has entries a → Has entries b → a = b

theorem lookup?_eq_none_iff_has :
    Data.lookup? (Points.ofString name) entries = none ↔ ¬ Has entries name := by
  rw [Data.lookup?_eq_none_iff]
  constructor
  · rintro others ⟨d, entry⟩
    exact others _ entry rfl
  · rintro nothing ⟨key, d⟩ entry same
    obtain rfl : key = .ofString name := same
    exact nothing ⟨d, entry⟩

theorem find?_eq_none_iff : find? entries names = none ↔ ∀ name ∈ names, ¬ Has entries name := by
  induction names with
  | nil => exact iff_of_true rfl (List.forall_mem_nil _)
  | cons name names ih =>
    rw [find?, List.forall_mem_cons, ← lookup?_eq_none_iff_has]
    cases Data.lookup? (Points.ofString name) entries with
    | none => exact ih.trans (and_iff_right rfl).symm
    | some d => exact iff_of_false nofun fun both => nomatch both.1

theorem of_find? (found : find? entries names = some (name, d)) :
    name ∈ names ∧ Data.lookup? (Points.ofString name) entries = some d := by
  induction names with
  | nil => cases found
  | cons first names ih =>
    rw [find?] at found
    split at found
    · rename_i here
      cases found
      exact ⟨List.mem_cons_self, here⟩
    · obtain ⟨among, here⟩ := ih found
      exact ⟨List.mem_cons_of_mem _ among, here⟩

/-- In a record without repetition the only entry of a field is found. -/
theorem find?_eq_some_iff (distinct : Data.Distinct entries) (once : Once entries names) :
    find? entries names = some (name, d) ↔ name ∈ names ∧ (.ofString name, d) ∈ entries := by
  constructor
  · intro found
    obtain ⟨among, here⟩ := of_find? found
    exact ⟨among, (Data.lookup?_eq_some_iff distinct).mp here⟩
  · rintro ⟨among, entry⟩
    cases found : find? entries names with
    | none => exact absurd ⟨d, entry⟩ (find?_eq_none_iff.mp found name among)
    | some p =>
      obtain ⟨other, d'⟩ := p
      obtain ⟨among', here⟩ := of_find? found
      have entry' := (Data.lookup?_eq_some_iff distinct).mp here
      obtain rfl := once _ among _ among' ⟨d, entry⟩ ⟨d', entry'⟩
      rw [Option.some.inj (here.symm.trans ((Data.lookup?_eq_some_iff distinct).mpr entry))]

end ExprLexer.Schema
