import ExprLexer.Listing.Plain
import ExprLexer.Proofs.Scan.Gap
import ExprLexer.Text.Blank

/-!
# Lines and fields

A field without the separator behind it can be told from what follows, so texts that are written
line by line determine their lines (`unlines_inj`). Other characters than the line feed end lines as
well. Where none of them occurs, the lines of the whole are those that were written
(`lines_unlines`).
-/

namespace ExprLexer

namespace Text

variable {c : Char} {a b s t : List Char}

/-! ### Fields -/

theorem eq_of_append_cons (left : c ∉ a) (right : c ∉ b) (same : a ++ c :: s = b ++ c :: t) :
    a = b ∧ s = t := by
  have field : ∀ {a s : List Char}, c ∉ a → (a ++ c :: s).takeWhile (· ≠ c) = a := by
    intro a s other
    refine takeWhile_append (fun d member => ?_) (by simp)
    exact decide_eq_true fun here => other (here ▸ member)
  have fields : a = b := by rw [← field left, same, field right]
  subst fields
  exact ⟨rfl, List.tail_eq_of_cons_eq (List.append_cancel_left same)⟩

theorem eq_of_append_cons_last (left : c ∉ s) (right : c ∉ t) (same : a ++ c :: s = b ++ c :: t) :
    a = b ∧ s = t := by
  have back := congrArg List.reverse same
  simp only [List.reverse_append, List.reverse_cons, List.append_assoc, List.singleton_append]
    at back
  obtain ⟨last, front⟩ := eq_of_append_cons (by simpa using left) (by simpa using right) back
  exact ⟨List.reverse_inj.mp front, List.reverse_inj.mp last⟩

/-- A word is the same whatever number of spaces stands in front of it. -/
theorem eq_of_spaces_append {m n : Nat} (some_ : a ≠ [] ∧ b ≠ []) (left : ' ' ∉ a)
    (right : ' ' ∉ b)
    (same : List.replicate m ' ' ++ (a ++ ' ' :: s) = List.replicate n ' ' ++ (b ++ ' ' :: t)) :
    a = b ∧ s = t := by
  have word : ∀ {m : Nat} {a s : List Char}, a ≠ [] → ' ' ∉ a →
      (List.replicate m ' ' ++ (a ++ ' ' :: s)).dropWhile (· = ' ') = a ++ ' ' :: s := by
    intro m a s some_ other
    refine dropWhile_append (fun d member => decide_eq_true (List.eq_of_mem_replicate member)) ?_
    obtain ⟨d, ds, rfl⟩ := List.exists_cons_of_ne_nil some_
    intro e head
    obtain rfl := Option.some.inj head
    exact decide_eq_false fun here => other (here ▸ List.mem_cons_self)
  refine eq_of_append_cons left right ?_
  rw [← word some_.1 left, same, word some_.2 right]

/-! ### Lines -/

/-- The characters that end a line. -/
def lineEnds : List Char :=
  ['\n', '\x0b', '\x0c', '\r', '\x1c', '\x1d', '\x1e', '\u0085', '\u2028', '\u2029']

/-- The lines of a text without their ends. A carriage return with a line feed is one end, and
nothing follows the last end. -/
def lines : List Char → List (List Char)
  | [] => []
  | '\r' :: '\n' :: rest => [] :: lines rest
  | c :: rest =>
    if c ∈ lineEnds then [] :: lines rest
    else
      match lines rest with
      | [] => [[c]]
      | l :: ls => (c :: l) :: ls

example : lines "a\r\n\u2028b\n\rc".toList = ["a".toList, [], "b".toList, [], "c".toList] := by
  decide

/-- Stated on the list, so that a decision goes through its ten characters and no others. -/
theorem forall_mem_lineEnds {p : Char → Prop} [DecidablePred p]
    (all : lineEnds.all (fun c => decide (p c)) = true) : ∀ c ∈ lineEnds, p c :=
  fun c ends => of_decide_eq_true (List.all_eq_true.mp all c ends)

theorem isBlank_of_mem_lineEnds : ∀ c ∈ lineEnds, isBlank c = true :=
  forall_mem_lineEnds (by decide)

theorem lines_append (inside : ∀ c ∈ lineEnds, c ∉ a) (rest : List Char) :
    lines (a ++ '\n' :: rest) = a :: lines rest := by
  induction a with
  | nil => rfl
  | cons c a ih =>
    have first : c ∉ lineEnds := fun ends => inside c ends List.mem_cons_self
    have later : ∀ d ∈ lineEnds, d ∉ a := fun d ends => List.not_mem_of_not_mem_cons (inside d ends)
    rw [List.cons_append, lines, if_neg first, ih later]
    -- No line end, so no carriage return either.
    rintro rest rfl
    exact absurd first (by decide)

end Text

namespace Listing

theorem toList_unlines_cons (l : String) (ls : List String) :
    (unlines (l :: ls)).toList = l.toList ++ '\n' :: (unlines ls).toList := by
  rw [unlines, unlines, String.toList_join, String.toList_join, List.map_cons, List.flatMap_cons,
    String.toList_append, List.append_assoc]
  rfl

theorem unlines_append (ls ms : List String) : unlines (ls ++ ms) = unlines ls ++ unlines ms := by
  refine String.toList_injective ?_
  simp only [unlines, String.toList_join, String.toList_append, List.map_append,
    List.flatMap_append]

theorem unlines_singleton (l : String) : unlines [l] = l ++ "\n" := by
  refine String.toList_injective ?_
  simp [unlines]

theorem unlines_inj {ls ms : List String} (left : ∀ l ∈ ls, '\n' ∉ l.toList)
    (right : ∀ m ∈ ms, '\n' ∉ m.toList) (same : unlines ls = unlines ms) : ls = ms := by
  have some_ : ∀ {m : String} {ms : List String}, unlines [] ≠ unlines (m :: ms) := by
    intro m ms nothing
    have chars := congrArg String.toList nothing
    rw [toList_unlines_cons] at chars
    exact List.append_ne_nil_of_right_ne_nil _ (List.cons_ne_nil _ _) chars.symm
  induction ls generalizing ms with
  | nil =>
    cases ms with
    | nil => rfl
    | cons m ms => exact absurd same some_
  | cons l ls ih =>
    cases ms with
    | nil => exact absurd same.symm some_
    | cons m ms =>
      have chars := congrArg String.toList same
      rw [toList_unlines_cons, toList_unlines_cons] at chars
      rw [List.forall_mem_cons] at left right
      obtain ⟨first, later⟩ := Text.eq_of_append_cons left.1 right.1 chars
      rw [String.toList_injective first, ih left.2 right.2 (String.toList_injective later)]

theorem lines_unlines {ls : List String}
    (inside : ∀ c ∈ Text.lineEnds, ∀ l ∈ ls, c ∉ l.toList) :
    Text.lines (unlines ls).toList = ls.map String.toList := by
  induction ls with
  | nil => rfl
  | cons l ls ih =>
    have first : ∀ c ∈ Text.lineEnds, c ∉ l.toList := fun c ends =>
      inside c ends l List.mem_cons_self
    have later : ∀ c ∈ Text.lineEnds, ∀ m ∈ ls, c ∉ m.toList := fun c ends m member =>
      inside c ends m (List.mem_cons_of_mem l member)
    rw [toList_unlines_cons, Text.lines_append first, ih later, List.map_cons]

end Listing

end ExprLexer
