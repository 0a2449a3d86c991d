import ExprLexer.Listing.Load
import ExprLexer.Proofs.Yaml.Load

/-!
# Texts that load no tokens

`load_eq_error_iff` has every way in which a text can load no tokens. Most of them are display
errors; what a scalar of the document can cause is not.
-/

namespace ExprLexer.Listing

/-- Why data describes no tokens: it is no list, or its first item that is no record of a token
stands at this index. -/
inductive Refuses : Data → DisplayError → Prop
  | notAList {d : Data} (some_ : d ≠ .null) (other : ∀ ds, d ≠ .list ds) : Refuses d .notAList
  | record {before after : List Data} {d : Data} {failure : Schema.Failure}
      (tokens : ∀ b ∈ before, ∃ t, Token.ofData b = .ok t)
      (failed : Token.ofData d = .error failure) :
      Refuses (.list (before ++ d :: after)) (.record before.length failure)

theorem ofRecords_append_error {before : List Data} {d : Data} {failure : Schema.Failure}
    (after : List Data) (tokens : ∀ b ∈ before, ∃ t, Token.ofData b = .ok t)
    (failed : Token.ofData d = .error failure) (index : Nat) :
    ofRecords index (before ++ d :: after) = .error (.record (index + before.length) failure) := by
  induction before generalizing index with
  | nil =>
    rw [List.nil_append, ofRecords, failed]
    rfl
  | cons b before ih =>
    obtain ⟨⟨t, token⟩, later⟩ := List.forall_mem_cons.mp tokens
    rw [List.cons_append, ofRecords, token]
    dsimp only
    rw [ih later, List.length_cons, Nat.add_assoc, Nat.add_comm 1]

theorem exists_of_ofRecords {ds : List Data} {index : Nat} {e : DisplayError}
    (failed : ofRecords index ds = .error e) :
    ∃ before d after failure, ds = before ++ d :: after ∧
      (∀ b ∈ before, ∃ t, Token.ofData b = .ok t) ∧ Token.ofData d = .error failure ∧
      e = .record (index + before.length) failure := by
  induction ds generalizing index with
  | nil => cases failed
  | cons d ds ih =>
    rw [ofRecords] at failed
    split at failed
    · rename_i failure token
      cases failed
      exact ⟨[], d, ds, failure, rfl, List.forall_mem_nil _, token, rfl⟩
    · rename_i t token
      split at failed
      · cases failed
      · rename_i later
        cases failed
        obtain ⟨before, d', after, failure, rfl, tokens, failed, rfl⟩ := ih later
        refine ⟨d :: before, d', after, failure, rfl, ?_, failed, ?_⟩
        · exact List.forall_mem_cons.mpr ⟨⟨t, token⟩, tokens⟩
        · rw [List.length_cons, Nat.add_assoc, Nat.add_comm 1]

theorem ofData_error_iff {d : Data} {e : DisplayError} : ofData d = .error e ↔ Refuses d e := by
  constructor
  · intro failed
    unfold ofData at failed
    split at failed
    · cases failed
    · obtain ⟨before, d, after, failure, rfl, tokens, wrong, rfl⟩ := exists_of_ofRecords failed
      rw [Nat.zero_add]
      exact .record tokens wrong
    · rename_i some_ other
      cases failed
      exact .notAList some_ other
  · intro refuses
    cases refuses with
    | notAList some_ other =>
      unfold ofData
      split
      · exact absurd rfl some_
      · exact absurd rfl (other _)
      · rfl
    | @record before after d failure tokens failed =>
      have first := ofRecords_append_error after tokens failed 0
      rwa [Nat.zero_add] at first

end ExprLexer.Listing
