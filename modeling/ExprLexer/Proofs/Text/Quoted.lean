import ExprLexer.Proofs.Text.Digits
import ExprLexer.Proofs.Text.Printable
import ExprLexer.Text.Quoted

/-!
# Quoted text read back

A code point is quoted in one of four ways (`spells_quotedPoint`), none of which starts with the
quote around the text. So quoted text is printable, and a reader finds the text and where it ends
(`unquote?_quoted`).
-/

namespace ExprLexer.Text

/-! ### The reader -/

/-- A number in base sixteen on `width` places, and what follows it. -/
def placed? (width : Nat) (cs : List Char) : Option (Nat × List Char) :=
  (number? 16 (cs.take width)).map fun n => (n, cs.drop width)

/-- The code point that a backslash and the characters behind it stand for, and what follows. -/
def escaped? : List Char → Option (Nat × List Char)
  | [] => none
  | 't' :: cs => some (0x09, cs)
  | 'n' :: cs => some (0x0A, cs)
  | 'r' :: cs => some (0x0D, cs)
  | 'x' :: cs => placed? 2 cs
  | 'u' :: cs => placed? 4 cs
  | 'U' :: cs => placed? 8 cs
  | c :: cs => some (c.toNat, cs)

def point? : List Char → Option (Nat × List Char)
  | [] => none
  | '\\' :: cs => escaped? cs
  | c :: cs => some (c.toNat, cs)

theorem length_le_of_placed? {width n : Nat} {cs after : List Char}
    (read : placed? width cs = some (n, after)) : after.length ≤ cs.length := by
  obtain ⟨m, -, here⟩ := Option.map_eq_some_iff.mp read
  cases here
  rw [List.length_drop]
  exact Nat.sub_le _ _

theorem length_lt_of_escaped? {n : Nat} {cs after : List Char}
    (read : escaped? cs = some (n, after)) : after.length < cs.length := by
  unfold escaped? at read
  split at read
  · cases read
  all_goals first
    | exact Nat.lt_succ_of_le (length_le_of_placed? read)
    | cases read; exact Nat.lt_succ_self _

theorem length_lt_of_point? {n : Nat} {cs after : List Char}
    (read : point? cs = some (n, after)) : after.length < cs.length := by
  unfold point? at read
  split at read
  · cases read
  · exact Nat.lt_succ_of_lt (length_lt_of_escaped? read)
  · cases read
    exact Nat.lt_succ_self _

/-- The text up to the quote `q`, and what follows the quote. -/
def points? (q : Char) (cs : List Char) : Option (Points × List Char) :=
  if cs.head? = some q then some ([], cs.tail)
  else
    match _h : point? cs with
    | none => none
    | some (n, after) => (points? q after).map fun (t, rest) => (n :: t, rest)
termination_by cs.length
decreasing_by exact length_lt_of_point? ‹_›

/-- The text that is quoted at the front, and what follows it. -/
def unquote? : List Char → Option (Points × List Char)
  | [] => none
  | q :: cs => points? q cs

variable {q : Char} {n : Nat} {cs after rest : List Char} {t : Points}

theorem points?_quote (q : Char) (rest : List Char) : points? q (q :: rest) = some ([], rest) := by
  rw [points?, if_pos List.head?_cons, List.tail_cons]

theorem points?_of_point? (other : cs.head? ≠ some q) (read : point? cs = some (n, after)) :
    points? q cs = (points? q after).map fun (t, rest) => (n :: t, rest) := by
  rw [points?, if_neg other]
  split
  · next found =>
    rw [read] at found
    cases found
  · next found =>
    rw [read] at found
    cases found
    rfl

/-! ### Spellings of a code point -/

/-- The letters for three controls. -/
def controlLetters : List (Char × Nat) := [('t', 0x09), ('n', 0x0A), ('r', 0x0D)]

/-- The letters in front of numbers, and the places of these. -/
def numberLetters : List (Char × Nat) := [('x', 2), ('u', 4), ('U', 8)]

/-- The ways to write a code point between quotes `q`. -/
inductive Spells (q : Char) (n : Nat) : List Char → Prop
  | itself {c : Char} (point : c.toNat = n) (printable : isPrintable n = true)
      (other : c ≠ q ∧ c ≠ '\\') : Spells q n [c]
  | marked {c : Char} (point : c.toNat = n) (special : c = q ∨ c = '\\') : Spells q n ['\\', c]
  | letter {c : Char} (named : (c, n) ∈ controlLetters) : Spells q n ['\\', c]
  | number {c : Char} {width : Nat} (named : (c, width) ∈ numberLetters) (fits : n < 16 ^ width) :
      Spells q n ('\\' :: c :: hex lowerDigit width n)

theorem toNat_ofNat_of_isPrintable (printable : isPrintable n = true) :
    (Char.ofNat n).toNat = n := by
  obtain ⟨small, absent⟩ := isPrintable_iff.mp printable
  -- The surrogates are in a range of the second table.
  have outside : ¬(0xD7FC ≤ n ∧ n ≤ 0xF8FF) := fun inside =>
    Bool.eq_false_iff.mp absent (inRanges_iff.mpr ⟨(0xD7FC, 0xF8FF), by decide +kernel, inside⟩)
  have valid : n.isValidChar :=
    (by omega : n < 0xD800 ∨ 0xDFFF < n).imp id fun above => ⟨above, small⟩
  rw [Char.ofNat, dif_pos valid]
  rfl

theorem spells_quotedPoint (quote : q = '\'' ∨ q = '"') (small : n < 0x110000) :
    Spells q n (quotedPoint q n) := by
  unfold quotedPoint
  split
  · next special =>
    have ascii : ∀ d : Char, n = d.toNat → Char.ofNat n = d := by
      rintro d rfl
      exact Char.ofNat_toNat d
    rcases special with here | here
    · exact .marked (by rw [ascii q here, here]) (.inl (ascii q here))
    · exact .marked (by rw [ascii '\\' here, here]; rfl) (.inr (ascii '\\' here))
  · next plain =>
    rw [not_or] at plain
    split_ifs with tab feed return_ printable byte word
    · exact .letter (by subst tab; decide)
    · exact .letter (by subst feed; decide)
    · exact .letter (by subst return_; decide)
    · have point := toNat_ofNat_of_isPrintable printable
      refine .itself point printable ⟨?_, ?_⟩
      · rintro rfl
        exact plain.1 point.symm
      · intro same
        rw [same] at point
        exact plain.2 point.symm
    · exact .number (by decide) byte
    · exact .number (by decide) word
    · exact .number (by decide) (by omega)

theorem Spells.head (spells : Spells q n cs) (quote : q = '\'' ∨ q = '"') (rest : List Char) :
    (cs ++ rest).head? ≠ some q := by
  have mark : '\\' ≠ q := by
    rintro rfl
    exact absurd quote (by decide)
  cases spells with
  | itself _ _ other => exact fun same => other.1 (Option.some.inj same)
  | marked | letter | number => exact fun same => mark (Option.some.inj same)

theorem Spells.point? (spells : Spells q n cs) (quote : q = '\'' ∨ q = '"') (rest : List Char) :
    point? (cs ++ rest) = some (n, rest) := by
  cases spells with
  | @itself c point _ other =>
    show Text.point? (c :: rest) = _
    unfold Text.point?
    split
    · next none => cases none
    · next here => exact absurd (List.cons.inj here).1 other.2
    · next here =>
      cases here
      rw [point]
  | marked point special =>
    subst point
    rcases special with rfl | rfl
    · rcases quote with rfl | rfl <;> rfl
    · rfl
  | letter named =>
    simp only [controlLetters, List.mem_cons, List.not_mem_nil, or_false, Prod.mk.injEq] at named
    rcases named with ⟨rfl, rfl⟩ | ⟨rfl, rfl⟩ | ⟨rfl, rfl⟩ <;> rfl
  | @number c width named fits =>
    have digits : 0 < width → placed? width (hex lowerDigit width n ++ rest) = some (n, rest) := by
      intro places
      have length := length_hex lowerDigit width n
      rw [placed?, List.take_left' length, List.drop_left' length,
        number?_hex (fun _ => digitValue?_lowerDigit) places fits]
      rfl
    simp only [numberLetters, List.mem_cons, List.not_mem_nil, or_false, Prod.mk.injEq] at named
    rcases named with ⟨rfl, rfl⟩ | ⟨rfl, rfl⟩ | ⟨rfl, rfl⟩ <;> exact digits (by decide)

theorem isPrintable_lowerDigit {d : Nat} (small : d < 16) :
    isPrintable (lowerDigit d).toNat = true := by
  interval_cases d <;> rfl

theorem Spells.isPrintable (spells : Spells q n cs) (quote : q = '\'' ∨ q = '"') :
    ∀ c ∈ cs, isPrintable c.toNat = true := by
  have mark : Text.isPrintable '\\'.toNat = true := rfl
  cases spells with
  | itself point printable => exact List.forall_mem_singleton.mpr (point ▸ printable)
  | marked _ special =>
    refine List.forall_mem_cons.mpr ⟨mark, List.forall_mem_singleton.mpr ?_⟩
    rcases special with rfl | rfl
    · rcases quote with rfl | rfl <;> rfl
    · rfl
  | letter named =>
    refine List.forall_mem_cons.mpr ⟨mark, List.forall_mem_singleton.mpr ?_⟩
    simp only [controlLetters, List.mem_cons, List.not_mem_nil, or_false, Prod.mk.injEq] at named
    rcases named with ⟨rfl, -⟩ | ⟨rfl, -⟩ | ⟨rfl, -⟩ <;> rfl
  | number named =>
    refine List.forall_mem_cons.mpr ⟨mark, List.forall_mem_cons.mpr ⟨?_, fun c member => ?_⟩⟩
    · simp only [numberLetters, List.mem_cons, List.not_mem_nil, or_false, Prod.mk.injEq] at named
      rcases named with ⟨rfl, -⟩ | ⟨rfl, -⟩ | ⟨rfl, -⟩ <;> rfl
    · obtain ⟨d, small, rfl⟩ := mem_hex member
      exact isPrintable_lowerDigit small

/-! ### Whole texts -/

theorem toList_quotePoints (t : Points) : (quotePoints t).toList = quoted t := String.toList_ofList

theorem delimiter_cases (t : Points) : delimiter t = '\'' ∨ delimiter t = '"' := by
  unfold delimiter
  split
  · exact .inr rfl
  · exact .inl rfl

/-- Holds of surrogates too. -/
theorem unquote?_quoted (small : ∀ n ∈ t, n < 0x110000) (rest : List Char) :
    unquote? (quoted t ++ rest) = some (t, rest) := by
  have body : ∀ {q : Char}, q = '\'' ∨ q = '"' → ∀ {t : Points}, (∀ n ∈ t, n < 0x110000) →
      points? q (t.flatMap (quotedPoint q) ++ q :: rest) = some (t, rest) := by
    intro q quote t small
    induction t with
    | nil => exact points?_quote q rest
    | cons n t ih =>
      obtain ⟨first, later⟩ := List.forall_mem_cons.mp small
      have spells := spells_quotedPoint quote first
      rw [List.flatMap_cons, List.append_assoc,
        points?_of_point? (spells.head quote _) (spells.point? quote _), ih later]
      rfl
  rw [quoted, List.cons_append, List.append_assoc]
  exact body (delimiter_cases t) small

theorem isPrintable_quoted (small : ∀ n ∈ t, n < 0x110000) :
    ∀ c ∈ quoted t, isPrintable c.toNat = true := by
  have quote := delimiter_cases t
  have ends : isPrintable (delimiter t).toNat = true := by
    rcases quote with single | double
    · rw [single]
      rfl
    · rw [double]
      rfl
  refine List.forall_mem_cons.mpr ⟨ends, fun c member => ?_⟩
  rcases List.mem_append.mp member with inside | last
  · obtain ⟨n, here, spelled⟩ := List.mem_flatMap.mp inside
    exact (spells_quotedPoint quote (small n here)).isPrintable quote c spelled
  · rw [List.mem_singleton.mp last]
    exact ends

end ExprLexer.Text
