import ExprLexer.Proofs.Scan.Gap

/-!
# Escape sequences

A sequence that sets the colour of a terminal is an escape character, a bracket, digits and the
letter m. Which characters are digits is left open. Deleting the sequences keeps what holds no
escape character (`dropEscapes_append`).
-/

namespace ExprLexer.Text

/-- What follows a sequence at the front of a text. -/
def afterEscape? (digit : Char → Bool) : List Char → Option (List Char)
  | '\x1b' :: '[' :: rest =>
    match rest.takeWhile digit, rest.dropWhile digit with
    | _ :: _, 'm' :: after => some after
    | _, _ => none
  | _ => none

theorem length_lt_of_afterEscape? {digit : Char → Bool} {cs after : List Char}
    (read : afterEscape? digit cs = some after) : after.length < cs.length := by
  unfold afterEscape? at read
  split at read
  · next rest =>
    split at read
    · next behind =>
      cases read
      have shorter := (List.dropWhile_suffix (l := rest) digit).length_le
      rw [behind, List.length_cons] at shorter
      simp only [List.length_cons]
      omega
    · cases read
  · cases read

/-- The text without its sequences, read from the front. -/
def dropEscapes (digit : Char → Bool) (cs : List Char) : List Char :=
  match _h : afterEscape? digit cs with
  | some after => dropEscapes digit after
  | none =>
    match cs with
    | [] => []
    | c :: cs => c :: dropEscapes digit cs
termination_by cs.length
decreasing_by
  · exact length_lt_of_afterEscape? ‹_›
  · exact Nat.lt_succ_self _

variable {digit : Char → Bool} {c : Char} {cs ds after : List Char}

theorem dropEscapes_nil (digit : Char → Bool) : dropEscapes digit [] = [] := by
  rw [dropEscapes]
  rfl

theorem dropEscapes_of_some (read : afterEscape? digit cs = some after) :
    dropEscapes digit cs = dropEscapes digit after := by
  rw [dropEscapes]
  split
  · next found =>
    rw [read] at found
    cases found
    rfl
  · next found =>
    rw [read] at found
    cases found

theorem dropEscapes_of_none (read : afterEscape? digit (c :: cs) = none) :
    dropEscapes digit (c :: cs) = c :: dropEscapes digit cs := by
  rw [dropEscapes]
  split
  · next found =>
    rw [read] at found
    cases found
  · rfl

theorem dropEscapes_cons (other : c ≠ '\x1b') (cs : List Char) :
    dropEscapes digit (c :: cs) = c :: dropEscapes digit cs := by
  refine dropEscapes_of_none ?_
  unfold afterEscape?
  split
  · next spelled => exact absurd (List.cons.inj spelled).1 other
  · rfl

theorem dropEscapes_append (plain : '\x1b' ∉ cs) (rest : List Char) :
    dropEscapes digit (cs ++ rest) = cs ++ dropEscapes digit rest := by
  induction cs with
  | nil => rfl
  | cons c cs ih =>
    rw [List.mem_cons, not_or] at plain
    rw [List.cons_append, dropEscapes_cons (Ne.symm plain.1), ih plain.2, List.cons_append]

theorem dropEscapes_escape (some_ : ds ≠ []) (digits : ∀ d ∈ ds, digit d = true)
    (stop : digit 'm' = false) (rest : List Char) :
    dropEscapes digit ('\x1b' :: '[' :: (ds ++ 'm' :: rest)) = dropEscapes digit rest := by
  have ends : ∀ c ∈ ('m' :: rest).head?, digit c = false := by
    intro c head
    obtain rfl := Option.some.inj head
    exact stop
  obtain ⟨d, ds, rfl⟩ := List.exists_cons_of_ne_nil some_
  refine dropEscapes_of_some ?_
  rw [afterEscape?, takeWhile_append digits ends, dropWhile_append digits ends]
  rfl

/-- An escape character that no bracket follows is kept. -/
theorem dropEscapes_alone (other : c ≠ '[') (cs : List Char) :
    dropEscapes digit ('\x1b' :: c :: cs) = '\x1b' :: dropEscapes digit (c :: cs) := by
  refine dropEscapes_of_none ?_
  unfold afterEscape?
  split
  · next rest spelled =>
    exact absurd (List.cons.inj (List.cons.inj spelled).2).1 other
  · rfl

end ExprLexer.Text
