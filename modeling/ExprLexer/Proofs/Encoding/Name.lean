import Mathlib.Data.List.Basic
import ExprLexer.Encoding.Name

/-!
# Names of encodings

Of a name only its words count, whatever their case and whatever stands between them (`normal_eq`).
`Named` says which encoding the words name, and `ofName?` finds that one (`ofName?_eq_some_iff`).
-/

namespace ExprLexer.Encoding

/-- The words of a name: its runs of letters, digits and points. -/
def words (cs : List Char) : List (List Char) :=
  (cs.splitOnP fun c => !isNameChar c).filter fun w => w ≠ []

variable {c : Char} {cs : List Char} {e : Encoding} {name : String}

theorem words_cons_of_not (other : isNameChar c = false) : words (c :: cs) = words cs := by
  rw [words, List.splitOnP_cons_eq_if_modifyHead, if_pos (by rw [other]; rfl)]
  rfl

theorem split_cons (here : isNameChar c = true) :
    (c :: cs).splitOnP (fun c => !isNameChar c) =
      (cs.splitOnP fun c => !isNameChar c).modifyHead (c :: ·) := by
  rw [List.splitOnP_cons_eq_if_modifyHead, if_neg (by rw [here]; exact Bool.false_ne_true)]

/-- A letter before a word belongs to it. -/
theorem words_cons_cons {d : Char} (cs : List Char) (first : isNameChar c = true)
    (next : isNameChar d = true) :
    ∃ w ws, words (d :: cs) = w :: ws ∧ words (c :: d :: cs) = (c :: w) :: ws := by
  obtain ⟨w, ws, rest⟩ := List.exists_cons_of_ne_nil
    (List.splitOnP_ne_nil (fun c => !isNameChar c) cs)
  refine ⟨d :: w, ws.filter fun w => w ≠ [], ?_, ?_⟩
  · rw [words, split_cons next, rest]
    rfl
  · rw [words, split_cons first, split_cons next, rest]
    rfl

/-- A letter that no letter follows is a word. -/
theorem words_cons_of_last (first : isNameChar c = true)
    (last : ∀ d ∈ cs.head?, isNameChar d = false) : words (c :: cs) = [c] :: words cs := by
  cases cs with
  | nil =>
    rw [words, split_cons first]
    rfl
  | cons d cs =>
    have next : (d :: cs).splitOnP (fun c => !isNameChar c) =
        [] :: cs.splitOnP fun c => !isNameChar c := by
      rw [List.splitOnP_cons_eq_if_modifyHead, if_pos (by rw [last d rfl]; rfl)]
    rw [words, split_cons first, words, next]
    rfl

theorem words_eq_nil_iff : words cs = [] ↔ cs.any isNameChar = false := by
  induction cs with
  | nil => exact iff_of_true rfl rfl
  | cons c cs ih =>
    cases first : isNameChar c with
    | false => rw [words_cons_of_not first, ih, List.any_cons, first, Bool.false_or]
    | true =>
      refine iff_of_false ?_ (by rw [List.any_cons, first, Bool.true_or]; exact Bool.noConfusion)
      by_cases last : ∀ d ∈ cs.head?, isNameChar d = false
      · rw [words_cons_of_last first last]
        exact List.cons_ne_nil _ _
      · cases cs with
        | nil => exact absurd nofun last
        | cons d cs =>
          have next : isNameChar d = true := by simpa using last
          obtain ⟨w, ws, -, whole⟩ := words_cons_cons cs first next
          rw [whole]
          exact List.cons_ne_nil _ _

/-- The words in lower case with an underscore between each two of them. -/
def folded (name : String) : List Char :=
  ['_'].intercalate ((words name.toList).map fun w => w.map Char.toLower)

theorem normal_eq (cs : List Char) :
    normal cs = ['_'].intercalate ((words cs).map fun w => w.map Char.toLower) := by
  induction cs with
  | nil => rfl
  | cons c cs ih =>
    cases first : isNameChar c with
    | false => rw [normal, first, Bool.not_false, if_pos rfl, words_cons_of_not first, ih]
    | true =>
      rw [normal, first, Bool.not_true, if_neg Bool.false_ne_true, ih]
      cases cs with
      | nil =>
        rw [words_cons_of_last first (by simp)]
        rfl
      | cons d cs =>
        cases next : isNameChar d with
        | true =>
          obtain ⟨w, ws, rest, whole⟩ := words_cons_cons cs first next
          rw [List.head?_cons, Option.any_some, next, Bool.not_true, Bool.false_and,
            if_neg Bool.false_ne_true, rest, whole]
          cases ws with
          | nil => simp
          | cons v ws => simp [List.intercalate_cons_cons]
        | false =>
          rw [List.head?_cons, Option.any_some, next, Bool.not_false, Bool.true_and,
            words_cons_of_last first (by simpa using next)]
          cases rest : words (d :: cs) with
          | nil =>
            rw [words_eq_nil_iff.mp rest, if_neg Bool.false_ne_true]
            rfl
          | cons w ws =>
            have more : (d :: cs).any isNameChar = true := by
              rw [← Bool.not_eq_false, ← words_eq_nil_iff, rest]
              exact List.cons_ne_nil w ws
            rw [more, if_pos rfl]
            simp [List.intercalate_cons_cons]

/-! ### The encoding of a name -/

/-- A point in an alias may stand for an underscore. -/
def pointless (cs : List Char) : List Char := cs.map fun c => if c = '.' then '_' else c

/-- The words of a name are those of a proper name or of an alias of the encoding. -/
inductive Named (name : String) : Encoding → Prop
  | proper {text : String} {e : Encoding} (known : (text, e) ∈ properNames)
      (same : folded name = text.toList) : Named name e
  | alternative {texts : List String} {text : String} {e : Encoding} (known : (e, texts) ∈ aliases)
      (among : text ∈ texts)
      (same : folded name = text.toList ∨ pointless (folded name) = text.toList) : Named name e

/-- An alias names one encoding, also where points in it stand for underscores. -/
theorem ofAlias?_known : ∀ a ∈ aliases, ∀ text ∈ a.2,
    ofAlias? text.toList = some a.1 ∧
      (ofAlias? (pointless text.toList) = none ∨
        ofAlias? (pointless text.toList) = some a.1) := by
  decide

theorem ofAlias?_proper : ∀ p ∈ properNames,
    ofAlias? p.1.toList = none ∧ ofAlias? (pointless p.1.toList) = none ∧
      (properNames.find? (·.1.toList == p.1.toList)).map (·.2) = some p.2 := by
  decide

theorem exists_of_ofAlias? (found : ofAlias? cs = some e) :
    ∃ texts, (e, texts) ∈ aliases ∧ ∃ text ∈ texts, cs = text.toList := by
  obtain ⟨⟨e', texts⟩, first, rfl⟩ := Option.map_eq_some_iff.mp found
  have here := List.find?_some first
  obtain ⟨text, among, same⟩ := List.any_eq_true.mp here
  exact ⟨texts, List.mem_of_find?_eq_some first, text, among, (eq_of_beq same).symm⟩

theorem ofName?_eq (name : String) : ofName? name =
    match ofAlias? (folded name), ofAlias? (pointless (folded name)) with
    | some e, _ => some e
    | none, some e => some e
    | none, none => (properNames.find? (·.1.toList == folded name)).map (·.2) := by
  rw [ofName?, normal_eq]
  rfl

theorem ofName?_eq_some_iff : ofName? name = some e ↔ Named name e := by
  rw [ofName?_eq]
  constructor
  · intro found
    split at found
    · rename_i e' here
      obtain rfl := Option.some.inj found
      obtain ⟨texts, known, text, among, same⟩ := exists_of_ofAlias? here
      exact .alternative known among (.inl same)
    · rename_i e' _ here
      obtain rfl := Option.some.inj found
      obtain ⟨texts, known, text, among, same⟩ := exists_of_ofAlias? here
      exact .alternative known among (.inr same)
    · obtain ⟨⟨text, e'⟩, first, rfl⟩ := Option.map_eq_some_iff.mp found
      have here := List.find?_some first
      exact .proper (List.mem_of_find?_eq_some first) (eq_of_beq here).symm
  · intro named
    cases named with
    | @proper text _ known same =>
      obtain ⟨noAlias, noPointless, found⟩ := ofAlias?_proper (text, e) known
      rw [same, noAlias, noPointless]
      exact found
    | @alternative texts text _ known among same =>
      have here := (ofAlias?_known (e, texts) known text among).1
      rcases same with same | same
      · rw [same, here]
      · -- The name with its points may be an alias too, but of the same encoding.
        rw [same, here]
        cases other : ofAlias? (folded name) with
        | none => rfl
        | some e' =>
          obtain ⟨texts', known', text', among', same'⟩ := exists_of_ofAlias? other
          have agrees := (ofAlias?_known (e', texts') known' text' among').2
          rw [← same', same, here] at agrees
          rcases agrees with none_ | same
          · cases none_
          · exact same.symm

theorem ofName?_eq_none_iff : ofName? name = none ↔ ∀ e, ¬ Named name e := by
  rw [Option.eq_none_iff_forall_ne_some]
  exact forall_congr' fun e => not_congr ofName?_eq_some_iff

/-- Case and punctuation hardly count. A hyphen within a word splits it. -/
example : ofName? " Latin--1 " = some (.plain .latin1) ∧ ofName? "la-tin1" = none := by decide

end ExprLexer.Encoding
