import ExprLexer.Json.Printer
import ExprLexer.Json.Reader
import ExprLexer.Proofs.Text.Digits

/-!
# JSON layouts

The items of a value are set apart by space, and a value whose numbers are integers is written in
ASCII (`print_ascii`).
-/

namespace ExprLexer.Json

open Text

variable {c : Char} {cs : List Char} {l : Layout} {depth : Nat}

/-- Space between the tokens of a text. -/
def Blank (gap : List Char) : Prop := ∀ c ∈ gap, isSpace c = true

theorem blank_newline (l : Layout) (depth : Nat) : Blank (l.newline depth) := by
  unfold Layout.newline
  split
  · exact List.forall_mem_nil _
  · refine List.forall_mem_cons.mpr ⟨rfl, fun c member => ?_⟩
    rw [List.eq_of_mem_replicate member]
    rfl

theorem exists_separator (l : Layout) (depth : Nat) :
    ∃ gap, l.separator depth = ',' :: gap ∧ Blank gap := by
  unfold Layout.separator
  split
  · exact ⟨[' '], rfl, List.forall_mem_singleton.mpr rfl⟩
  · exact ⟨l.newline depth, rfl, blank_newline l depth⟩

/-! ### Items -/

theorem flatten_intersperse_cons (separator x y : List Char) (xs : List (List Char)) :
    ((x :: y :: xs).intersperse separator).flatten =
      x ++ (separator ++ ((y :: xs).intersperse separator).flatten) := by
  rw [List.intersperse_cons_cons, List.flatten_cons, List.flatten_cons]

/-- A text that is set apart from others starts as its own first one does. -/
theorem exists_flatten_cons {x : List Char} (start : x = c :: cs) (separator : List Char)
    (xs : List (List Char)) : ∃ more, ((x :: xs).intersperse separator).flatten = c :: more := by
  cases xs with
  | nil => exact ⟨cs, by rw [List.intersperse_singleton, List.flatten_singleton, start]⟩
  | cons y xs =>
    rw [flatten_intersperse_cons, start]
    exact ⟨_, rfl⟩

theorem bracket_cons_append (l : Layout) (depth : Nat) (opening closing : Char) (x : List Char)
    (xs : List (List Char)) (rest : List Char) :
    bracket l depth opening closing (x :: xs) ++ rest =
      opening :: (l.newline (depth + 1) ++
        (((x :: xs).intersperse (l.separator (depth + 1))).flatten ++
          (l.newline depth ++ closing :: rest))) := by
  rw [bracket, if_neg (by rw [List.isEmpty_cons]; exact Bool.false_ne_true)]
  simp only [List.cons_append, List.append_assoc, List.nil_append]

theorem length_lt_bracket (l : Layout) (depth : Nat) (opening closing : Char) (x : List Char)
    (xs : List (List Char)) :
    ((x :: xs).intersperse (l.separator (depth + 1))).flatten.length + 2 ≤
      (bracket l depth opening closing (x :: xs)).length := by
  have text := congrArg List.length (bracket_cons_append l depth opening closing x xs [])
  simp only [List.append_nil, List.length_cons, List.length_append] at text
  omega

/-! ### ASCII -/

def Ascii (cs : List Char) : Prop := ∀ c ∈ cs, c.toNat < 0x80

instance : DecidablePred Ascii := fun cs =>
  decidable_of_iff ((cs.all fun c => c.toNat < 0x80) = true) (by simp [Ascii])

theorem ascii_append {cs ds : List Char} : Ascii (cs ++ ds) ↔ Ascii cs ∧ Ascii ds :=
  List.forall_mem_append

theorem ascii_cons {cs : List Char} : Ascii (c :: cs) ↔ c.toNat < 0x80 ∧ Ascii cs :=
  List.forall_mem_cons

theorem ascii_flatMap {α : Type} {xs : List α} {text : α → List Char}
    (all : ∀ x ∈ xs, Ascii (text x)) : Ascii (xs.flatMap text) := by
  intro c member
  obtain ⟨x, item, inside⟩ := List.mem_flatMap.mp member
  exact all x item c inside

theorem ascii_escapeUnit (u : Nat) : Ascii (escapeUnit u) := by
  have digits : Ascii (hex lowerDigit 4 u) := by
    intro c member
    obtain ⟨d, small, rfl⟩ := mem_hex member
    have narrow : ∀ d < 16, (lowerDigit d).toNat < 0x80 := by decide
    exact narrow d small
  exact ascii_cons.mpr ⟨by decide, ascii_cons.mpr ⟨by decide, digits⟩⟩

theorem ascii_escapeChar (c : Char) : Ascii (escapeChar c) := by
  unfold escapeChar
  iterate 7
    split
    · decide
  split
  · next narrow =>
    have last : c.toNat ≤ 0x7E := narrow.2
    exact List.forall_mem_singleton.mpr (by omega)
  · exact ascii_flatMap fun u _ => ascii_escapeUnit u

theorem ascii_stringText (cs : List Char) : Ascii (stringText cs) :=
  ascii_cons.mpr ⟨by decide,
    ascii_append.mpr ⟨ascii_flatMap fun c _ => ascii_escapeChar c, by decide⟩⟩

theorem ascii_toString (i : Int) : Ascii (toString i).toList := by
  have digits : ∀ n : Nat, Ascii (Nat.toDigits 10 n) := by
    intro n c member
    have digit := isDigit_toDigits n c member
    have last : c.toNat ≤ 0x39 := (Char.isDigit_iff_toNat.mp digit).2
    omega
  cases i with
  | ofNat n =>
    rw [Int.ofNat_eq_natCast, toList_toString_natCast]
    exact digits n
  | negSucc n =>
    rw [toList_toString_negSucc]
    exact ascii_cons.mpr ⟨by decide, digits (n + 1)⟩

theorem ascii_newline (l : Layout) (depth : Nat) : Ascii (l.newline depth) := by
  intro c member
  have space := blank_newline l depth c member
  simp only [isSpace, Bool.or_eq_true, decide_eq_true_eq] at space
  rcases space with ((rfl | rfl) | rfl) | rfl <;> decide

theorem ascii_separator (l : Layout) (depth : Nat) : Ascii (l.separator depth) := by
  unfold Layout.separator
  split
  · decide
  · exact ascii_cons.mpr ⟨by decide, ascii_newline l depth⟩

theorem ascii_intersperse {separator : List Char} {items : List (List Char)}
    (between : Ascii separator) (all : ∀ x ∈ items, Ascii x) :
    Ascii (items.intersperse separator).flatten := by
  induction items with
  | nil => exact List.forall_mem_nil _
  | cons x xs ih =>
    obtain ⟨first, later⟩ := List.forall_mem_cons.mp all
    cases xs with
    | nil =>
      rw [List.intersperse_singleton, List.flatten_singleton]
      exact first
    | cons y xs =>
      rw [flatten_intersperse_cons]
      exact ascii_append.mpr ⟨first, ascii_append.mpr ⟨between, ih later⟩⟩

theorem ascii_bracket (opening closing : Char) {items : List (List Char)}
    (brackets : opening.toNat < 0x80 ∧ closing.toNat < 0x80) (all : ∀ x ∈ items, Ascii x) :
    Ascii (bracket l depth opening closing items) := by
  have ends : Ascii [closing] := List.forall_mem_singleton.mpr brackets.2
  have inside := ascii_intersperse (ascii_separator l (depth + 1)) all
  unfold bracket
  split
  · exact ascii_cons.mpr ⟨brackets.1, ends⟩
  · have front := ascii_append.mpr ⟨ascii_newline l (depth + 1), inside⟩
    have body := ascii_append.mpr ⟨front, ascii_newline l depth⟩
    exact ascii_cons.mpr ⟨brackets.1, ascii_append.mpr ⟨body, ends⟩⟩

/-- Every number in the value is an integer. -/
inductive Integral : Json → Prop
  | null : Integral .null
  | bool (b : Bool) : Integral (.bool b)
  | int (i : Int) : Integral (.int i)
  | string (s : String) : Integral (.string s)
  | array {items : List Json} (all : ∀ x ∈ items, Integral x) : Integral (.array items)
  | object {members : List (String × Json)} (all : ∀ m ∈ members, Integral m.2) :
      Integral (.object members)

/-- A value whose numbers are integers is written in ASCII. -/
theorem print_ascii {j : Json} (integral : j.Integral) (l : Layout) (depth : Nat) :
    Ascii (print l depth j) := by
  induction integral generalizing depth with
  | null => exact (by decide : Ascii "null".toList)
  | bool b =>
    cases b
    · exact (by decide : Ascii "false".toList)
    · exact (by decide : Ascii "true".toList)
  | int i => exact ascii_toString i
  | string s => exact ascii_stringText s.toList
  | array all ih =>
    rw [print, printItems_eq_map]
    refine ascii_bracket '[' ']' (by decide) fun text member => ?_
    obtain ⟨x, item, rfl⟩ := List.mem_map.mp member
    exact ih x item (depth + 1)
  | object all ih =>
    rw [print, printMembers_eq_map]
    refine ascii_bracket '\x7b' '\x7d' (by decide) fun text member => ?_
    obtain ⟨m, item, rfl⟩ := List.mem_map.mp member
    have value := ascii_cons.mpr ⟨(by decide : ' '.toNat < 0x80), ih m item (depth + 1)⟩
    exact ascii_append.mpr ⟨ascii_stringText m.1.toList, ascii_cons.mpr ⟨by decide, value⟩⟩

theorem toList_pretty (j : Json) : (j.pretty ++ "\n").toList = print .pretty 0 j ++ ['\n'] := by
  rw [String.toList_append, pretty, String.toList_ofList]
  rfl

end ExprLexer.Json
