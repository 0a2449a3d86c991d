import ExprLexer.Proofs.Yaml.Levels

/-!
# Keys of mappings

No key comes twice in a mapping that is put together from entries, and so none in a document that
loads (`distinct_of_load`). In such mappings a name finds the one value under it
(`lookup?_eq_some_iff`).
-/

namespace ExprLexer

namespace Data

/-- No two entries have the same key. -/
def Distinct (entries : List (Data × Data)) : Prop :=
  entries.Pairwise fun a b => a.1.sameKey b.1 = false

variable {entries : List (Data × Data)} {key value d : Data} {name : Text.Points}

theorem key_of_mem_put {e : Data × Data} (member : e ∈ put key value entries) :
    e.1 = key ∨ ∃ old ∈ entries, old.1 = e.1 := by
  induction entries with
  | nil =>
    rw [put, List.mem_singleton] at member
    exact .inl (congrArg Prod.fst member)
  | cons first rest ih =>
    obtain ⟨k, v⟩ := first
    rw [put] at member
    split at member
    · rcases List.mem_cons.mp member with rfl | later
      · exact .inr ⟨(k, v), List.mem_cons_self, rfl⟩
      · exact .inr ⟨e, List.mem_cons_of_mem _ later, rfl⟩
    · rcases List.mem_cons.mp member with rfl | later
      · exact .inr ⟨(k, v), List.mem_cons_self, rfl⟩
      · rcases ih later with same | ⟨old, there, same⟩
        · exact .inl same
        · exact .inr ⟨old, List.mem_cons_of_mem _ there, same⟩

theorem Distinct.put (distinct : Distinct entries) (key value : Data) :
    Distinct (put key value entries) := by
  induction entries with
  | nil => exact List.pairwise_singleton _ _
  | cons first rest ih =>
    obtain ⟨k, v⟩ := first
    obtain ⟨apart, later⟩ := List.pairwise_cons.mp distinct
    rw [Data.put]
    split
    · exact List.pairwise_cons.mpr ⟨apart, later⟩
    · rename_i other
      refine List.pairwise_cons.mpr ⟨fun e member => ?_, ih later⟩
      rcases key_of_mem_put member with same | ⟨old, there, same⟩
      · rw [same]
        exact Bool.eq_false_of_not_eq_true other
      · rw [← same]
        exact apart old there

/-- Entries that overrule one another leave a mapping with every key once. -/
theorem distinct_ofEntries {given : List (Data × Data)}
    (whole : ofEntries given = mapping entries) : Distinct entries := by
  have step : ∀ {given es : List (Data × Data)}, Distinct es →
      Distinct (given.foldl (fun es e => Data.put e.1 e.2 es) es) := by
    intro given
    induction given with
    | nil => exact id
    | cons e given ih => exact fun distinct => ih (distinct.put e.1 e.2)
  rw [ofEntries, mapping.injEq] at whole
  rw [← whole]
  exact step List.Pairwise.nil

/-! ### Values under names -/

theorem ofString_injective : Function.Injective ofString := by
  intro a b same
  have points := congrArg Text.Points.toString? (text.inj same)
  rw [Text.Points.toString?_ofString, Text.Points.toString?_ofString] at points
  exact Option.some.inj points

theorem lookup?_cons_self (name : Text.Points) (value : Data) (entries : List (Data × Data)) :
    lookup? name ((.text name, value) :: entries) = some value := if_pos rfl

theorem lookup?_cons_of_ne (other : key ≠ .text name) :
    lookup? name ((key, value) :: entries) = lookup? name entries := by
  cases key with
  | text t => exact if_neg fun same => other (congrArg Data.text same)
  | _ => rfl

theorem lookup?_eq_none_iff : lookup? name entries = none ↔ ∀ e ∈ entries, e.1 ≠ .text name := by
  induction entries with
  | nil => exact iff_of_true rfl (List.forall_mem_nil _)
  | cons first rest ih =>
    obtain ⟨k, v⟩ := first
    rw [List.forall_mem_cons]
    by_cases same : k = .text name
    · subst same
      rw [lookup?_cons_self]
      exact iff_of_false nofun fun others => others.1 rfl
    · rw [lookup?_cons_of_ne same, ih]
      exact (and_iff_right same).symm

theorem lookup?_eq_some_iff (distinct : Distinct entries) :
    lookup? name entries = some d ↔ (.text name, d) ∈ entries := by
  induction entries with
  | nil => exact iff_of_false nofun (List.not_mem_nil)
  | cons first rest ih =>
    obtain ⟨k, v⟩ := first
    obtain ⟨apart, later⟩ := List.pairwise_cons.mp distinct
    rw [List.mem_cons, Prod.mk.injEq]
    by_cases same : k = .text name
    · subst same
      have nowhere : (.text name, d) ∉ rest := by
        intro member
        have other : decide (name = name) = false := apart _ member
        rw [decide_eq_false_iff_not] at other
        exact other rfl
      rw [lookup?_cons_self, Option.some.injEq, or_iff_left nowhere, and_iff_right rfl]
      exact eq_comm
    · have other : ¬ (.text name = k ∧ d = v) := fun here => same here.1.symm
      rw [lookup?_cons_of_ne same, ih later, or_iff_right other]

end Data

/-! ### Documents -/

namespace Yaml

theorem scalarValue_ne_mapping {tag : Tag} {cs : List Char} {entries : List (Data × Data)} :
    scalarValue tag cs ≠ .ok (.mapping entries) := by
  intro value
  cases tag with
  | bool => obtain ⟨_, -, same⟩ := exists_of_map value; cases same
  | int => obtain ⟨_, -, same⟩ := exists_of_map value; cases same
  | float => obtain ⟨_, -, same⟩ := exists_of_map value; cases same
  | binary =>
    dsimp only [scalarValue] at value
    split at value <;> cases value
  | timestamp =>
    dsimp only [scalarValue, timestampValue] at value
    split at value
    · cases value
    · unfold Timestamp.value Timestamp.data at value
      repeat' split at value
      all_goals cases value
  | _ => cases value

theorem valueOf_ne_mapping {tag : Tag} {text : Text.Points} {entries : List (Data × Data)} :
    valueOf tag text ≠ .ok (.mapping entries) := by
  intro value
  unfold valueOf at value
  split at value
  · exact scalarValue_ne_mapping value
  · unfold surrogateValue at value
    dsimp only at value
    split at value
    · cases value
    · cases value
    · exact scalarValue_ne_mapping value

theorem exists_of_mapError {x : Except ε α} {f : ε → φ} {a : α} (found : x.mapError f = .ok a) :
    x = .ok a := by
  cases x with
  | error e => cases found
  | ok b => exact congrArg Except.ok (Except.ok.inj found)

/-- Only the type of mappings builds one. -/
theorem exists_entries_of_build {fuel depth : Nat} {n : Node} {entries : List (Data × Data)}
    (built : build (fuel + 1) depth n = .ok (.mapping entries)) :
    ∃ given, Data.ofEntries given = .mapping entries := by
  unfold build at built
  dsimp only at built
  split at built
  · obtain ⟨_, -, same⟩ := exists_of_map built
    cases same
  · obtain ⟨_, -, same⟩ := exists_of_map built
    cases same
  · obtain ⟨_, -, same⟩ := exists_of_map built
    cases same
  · obtain ⟨given, -, same⟩ := exists_of_map built
    exact ⟨given, same⟩
  · obtain ⟨_, -, same⟩ := exists_of_map built
    cases same
  · have value := exists_of_mapError built
    unfold scalarOf at value
    split at value
    · cases value
    · split at value
      · cases value
      · exact absurd value valueOf_ne_mapping

theorem distinct_of_build {fuel depth : Nat} {n : Node} {entries : List (Data × Data)}
    (built : build fuel depth n = .ok (.mapping entries)) : Data.Distinct entries := by
  cases fuel with
  | zero => cases built
  | succ fuel =>
    obtain ⟨given, whole⟩ := exists_entries_of_build built
    exact Data.distinct_ofEntries whole

theorem distinct_of_load {text : List Char} {entries : List (Data × Data)}
    (document : load text = .ok (.mapping entries)) : Data.Distinct entries := by
  unfold load at document
  split at document
  · cases document
  · cases document
  · split at document
    · rename_i built
      rw [Except.ok.inj document] at built
      exact distinct_of_build built
    · cases document

end Yaml

end ExprLexer
