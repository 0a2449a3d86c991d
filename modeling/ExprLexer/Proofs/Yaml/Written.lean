import ExprLexer.Proofs.Yaml.Tokenizer

/-!
# Written scalars

The forms in which a scalar is written on one line, plain or between quotes, and the steps of the
tokenizer over keys and values in these forms.
-/

namespace ExprLexer.Yaml

/-- The characters `w`, wherever they stand as a whole, write a scalar of the text. -/
inductive Writes (flow : Bool) : (w : List Char) → (text : Text.Points) → (plain : Bool) → Prop
  | plain {cs : List Char} (visible : ∀ c ∈ cs, IsVisible c)
      (starts : ∀ after, startsPlain flow (cs ++ after) = true)
      (unbroken : ∀ after, Unbroken flow after cs) : Writes flow cs (Text.Points.ofChars cs) true
  | quoted {pieces : Pieces} (double : Bool) (stands : ∀ p ∈ pieces, Stands double p.1 p.2) :
      Writes flow (quoteMark double :: (pieces.text ++ [quoteMark double])) pieces.points false

variable {flow plain double : Bool} {c : Char} {w cs rest after : List Char} {text : Text.Points}

theorem startsPlain_head (starts : startsPlain flow (c :: rest) = true) : c ≠ '#' := by
  rintro rfl
  cases flow <;> simp [startsPlain] at starts

theorem Writes.narrow (writes : Writes flow w text plain) : ∀ c ∈ w, IsNarrow c := by
  cases writes with
  | plain visible starts unbroken => exact fun c member => (visible c member).isNarrow
  | @quoted pieces double stands =>
    have mark := (isVisible_quoteMark double).1.isNarrow
    intro c member
    rcases List.mem_cons.mp member with rfl | member
    · exact mark
    rcases List.mem_append.mp member with member | member
    · exact Pieces.narrow stands c member
    · exact List.mem_singleton.mp member ▸ mark

theorem Writes.exists_cons (writes : Writes flow w text plain) :
    ∃ c cs, w = c :: cs ∧ IsVisible c ∧ c ≠ '#' := by
  cases writes with
  | plain visible starts unbroken =>
    cases w with
    | nil => cases starts []
    | cons c cs => exact ⟨c, cs, rfl, visible c List.mem_cons_self, startsPlain_head (starts [])⟩
  | quoted double stands => exact ⟨_, _, rfl, isVisible_quoteMark double⟩

theorem Writes.shorter (writes : Writes flow w text plain) (after : List Char) :
    after.length < (w ++ after).length := by
  obtain ⟨c, cs, rfl, -⟩ := writes.exists_cons
  rw [List.length_append, List.length_cons]
  omega

theorem Writes.solid (writes : Writes flow w text plain) (after : List Char) :
    Input.Solid (w ++ after) := by
  obtain ⟨c, cs, rfl, first⟩ := writes.exists_cons
  intro d head
  obtain rfl := Option.some.inj head
  exact first

namespace Tokenizer

variable {t : Tokenizer}

theorem token_of_startsPlain (inside : t.column ≠ 0)
    (starts : startsPlain t.inFlow t.input.rest = true) (fuel : Nat) :
    t.token fuel = t.plain fuel := by
  have middle : decide (t.input.mark.column = 0) = false := decide_eq_false inside
  obtain ⟨⟨rest, m⟩, tokens, count, indents, keyAllowed, candidate, outer⟩ := t
  cases rest with
  | nil => cases starts
  | cons c rest =>
    dsimp only at starts middle
    unfold token
    dsimp only
    rw [middle]
    simp only [Bool.and_false, Bool.false_and, Bool.false_eq_true, if_false]
    split
    -- An indicator starts a plain scalar only where it is no token of its own.
    all_goals simp_all [startsPlain]

section

variable {ts : List Token} {indents : List Nat} {depth : Nat} {allowed : Bool} {m m' : Mark}

/-- The candidate that a key at the mark would have. -/
def candidateAt (m : Mark) (ts : List Token) (indents : List Nat) (depth : Nat) (allowed : Bool) :
    Option Candidate :=
  if allowed then some ⟨ts.length, !decide (0 < depth) && indents.head? = some m.column, m⟩
  else none

theorem saveCandidate_idle {i : Input} :
    (idle i ts indents depth allowed).saveCandidate = .ok
      { idle i ts indents depth allowed with
        candidate := candidateAt i.mark ts indents depth allowed } := by
  cases allowed with
  | false => rfl
  | true => cases depth <;> rfl

/-- The tokenizer behind a scalar, which may turn out to be a key. -/
def behind (i : Input) (m : Mark) (text : Text.Points) (plain : Bool) (ts : List Token)
    (indents : List Nat) (depth : Nat) (allowed crossed : Bool) : Tokenizer :=
  { idle i (.scalar text plain :: ts) indents depth crossed with
    candidate := candidateAt m ts indents depth allowed }

theorem plain_idle {fuel : Nat} {i last : Input} {cs : List Char} {crossed : Bool}
    (read : plainFrom (decide (0 < depth)) (indents.head?.elim 0 (· + 1)) fuel false i =
      (cs, crossed, last)) :
    (idle i ts indents depth allowed).plain fuel = .ok
      (behind last i.mark (Text.Points.ofChars cs) true ts indents depth allowed crossed) := by
  rw [← idle_inFlow i ts indents depth allowed] at read
  unfold plain
  rw [saveCandidate_idle]
  exact congrArg (fun r : List Char × Bool × Input => Except.ok
    (behind r.2.2 i.mark (Text.Points.ofChars r.1) true ts indents depth allowed r.2.1)) read

theorem quoted_idle {fuel : Nat} {i last : Input} (double : Bool)
    (read : quotedScalar double fuel i.step = .ok (text, last)) :
    (idle i ts indents depth allowed).quoted fuel double = .ok
      (behind last i.mark text false ts indents depth allowed false) := by
  have here : quotedScalar double fuel (idle i ts indents depth allowed).input.step =
    .ok (text, last) := read
  unfold quoted starter
  rw [saveCandidate_idle, here]
  rfl

theorem token_of_quoteMark {i : Input} (mark : i.rest.head? = some (quoteMark double))
    (fuel : Nat) : (idle i ts indents depth allowed).token fuel =
      (idle i ts indents depth allowed).quoted fuel double := by
  obtain ⟨rest, m⟩ := i
  obtain ⟨rest, rfl⟩ := List.head?_eq_some_iff.mp mark
  cases double <;> simp [token, idle, quoteMark, atSeparator]

theorem token_quoted {pieces : Pieces} {fuel : Nat} (stands : ∀ p ∈ pieces, Stands double p.1 p.2)
    (apart : after.head? ≠ some '\'') (enough : pieces.text.length < fuel) :
    (idle ⟨quoteMark double :: (pieces.text ++ [quoteMark double]) ++ after, m⟩ ts indents depth
        allowed).token fuel = .ok
      (behind ⟨after, m.right (pieces.text.length + 2)⟩ m pieces.points false ts indents depth
        allowed false) := by
  have read := quotedScalar_pieces (m := m.right 1) stands apart enough
  have step := Input.step_narrow (isVisible_quoteMark double).1.isNarrow
    (pieces.text ++ quoteMark double :: after) m
  rw [Mark.right_right, show 1 + (pieces.text.length + 1) = pieces.text.length + 2 by omega] at read
  rw [token_of_quoteMark rfl]
  apply quoted_idle
  rw [List.cons_append, List.append_assoc, List.singleton_append, step]
  exact read

theorem token_plain {i last : Input} {fuel : Nat} {crossed : Bool} (inside : i.mark.column ≠ 0)
    (starts : startsPlain (decide (0 < depth)) i.rest = true)
    (read : plainFrom (decide (0 < depth)) (indents.head?.elim 0 (· + 1)) fuel false i =
      (cs, crossed, last)) :
    (idle i ts indents depth allowed).token fuel = .ok
      (behind last i.mark (Text.Points.ofChars cs) true ts indents depth allowed crossed) := by
  rw [← idle_inFlow i ts indents depth allowed] at starts
  have here : (idle i ts indents depth allowed).column ≠ 0 := inside
  exact (token_of_startsPlain here starts fuel).trans (plain_idle read)

theorem token_colon {crossed : Bool} (fuel : Nat) :
    (behind ⟨':' :: ' ' :: rest, m'⟩ m text plain ts indents depth allowed crossed).token fuel =
      (behind ⟨':' :: ' ' :: rest, m'⟩ m text plain ts indents depth allowed crossed).value := by
  simp [token, behind, idle, atSeparator, endsWord, isBlank]

theorem value_behind {opened : Bool}
    (opening : (!decide (0 < depth) && indents.head?.all (· < m.column)) = opened) :
    (behind ⟨':' :: rest, m'⟩ m text plain ts indents depth true false).value = .ok
      (idle ⟨rest, m'.right 1⟩
        (.value :: .scalar text plain :: .key :: (if opened then .blockMappingStart :: ts else ts))
        (if opened then m.column :: indents else indents) depth false) := by
  have colon : IsNarrow ':' := by decide
  have step := Input.step_narrow colon rest m'
  cases depth with
  | succ depth =>
    obtain rfl : false = opened := opening
    simp [value, behind, idle, candidateAt, insertAt, inFlow, indicator, push, Input.skip, step,
      List.replicate_succ]
  | zero =>
    have first : indents.head?.all (· < m.column) = opened := opening
    cases opened with
    | false =>
      simp [value, behind, idle, candidateAt, insertAt, inFlow, opens, first, indicator, push,
        Input.skip, step]
    | true =>
      have two : ts.length + 1 + 1 - ts.length = 2 := by omega
      simp [value, behind, idle, candidateAt, insertAt, inFlow, opens, indent, first, indicator,
        push, Input.skip, step, two]

variable {fuel : Nat} (writes : Writes (decide (0 < depth)) w text plain) (inside : m.column ≠ 0)
include writes inside

theorem token_indicator (visible : IsVisible c)
    (stop : endsPlain (decide (0 < depth)) c rest = true)
    (enough : (w ++ c :: rest).length < fuel) :
    (idle ⟨w ++ c :: rest, m⟩ ts indents depth allowed).token fuel = .ok
      (behind ⟨c :: rest, m.right w.length⟩ m text plain ts indents depth allowed false) := by
  obtain ⟨fuel, rfl⟩ : ∃ k, fuel = k + 1 := ⟨fuel - 1, by omega⟩
  have first := writes.exists_cons
  have narrow := writes.narrow
  cases writes with
  | plain visible_ starts unbroken =>
    obtain ⟨d, ds, rfl, -, comment⟩ := first
    apply token_plain inside (starts _)
    refine plainFrom_indicator (List.cons_ne_nil _ _) ?_ narrow (unbroken _) ?_ ?_
    · simpa using comment
    · rintro c rest ⟨⟩
      exact stop
    · rintro c ⟨⟩
      exact visible
  | @quoted pieces double stands =>
    have length : (quoteMark double :: (pieces.text ++ [quoteMark double])).length =
      pieces.text.length + 2 := by simp
    rw [List.length_append, length] at enough
    rw [length]
    refine token_quoted stands ?_ (by omega)
    rintro ⟨⟩
    cases depth <;> simp [endsPlain, isBlank, isBreak] at stop

theorem token_line {n : Nat} (solid : Input.Solid rest)
    (apart : atSeparator (Input.indentation n ++ rest) = false)
    (shallow : depth = 0 → n < indents.head?.elim 0 (· + 1))
    (closes : 0 < depth → rest.head? = some '\x7d')
    (enough : (w ++ '\n' :: (Input.indentation n ++ rest)).length < fuel) :
    (idle ⟨w ++ '\n' :: (Input.indentation n ++ rest), m⟩ ts indents depth allowed).token fuel = .ok
      (behind (if plain then ⟨rest, (m.right w.length).down.right n⟩
        else ⟨'\n' :: (Input.indentation n ++ rest), m.right w.length⟩)
        m text plain ts indents depth allowed plain) := by
  have first := writes.exists_cons
  have narrow := writes.narrow
  cases writes with
  | plain visible_ starts unbroken =>
    obtain ⟨d, ds, rfl, -, comment⟩ := first
    rw [List.length_append, List.length_cons, List.length_cons] at enough
    obtain ⟨fuel, rfl⟩ : ∃ k, fuel = k + 2 := ⟨fuel - 2, by omega⟩
    apply token_plain inside (starts _)
    refine plainFrom_line (List.cons_ne_nil _ _) ?_ narrow (unbroken _) solid apart ?_ ?_ rfl
    · simpa using comment
    · simpa using shallow
    · simpa using closes
  | @quoted pieces double stands =>
    have length : (quoteMark double :: (pieces.text ++ [quoteMark double])).length =
      pieces.text.length + 2 := by simp
    rw [List.length_append, length] at enough
    rw [length]
    exact token_quoted stands nofun (by omega)

variable (depth) in
/-- A value at the end of a line, where no key may start. -/
theorem reaches_value_line {n : Nat} (solid : Input.Solid rest)
    (apart : atSeparator (Input.indentation n ++ rest) = false)
    (within : 0 < depth ∨ ∀ n ∈ indents.head?, n ≤ m.column)
    (shallow : depth = 0 → n < indents.head?.elim 0 (· + 1))
    (closes : 0 < depth → rest.head? = some '\x7d') :
    ∃ crossed, (depth = 0 → crossed = true) ∧
      Reaches (idle ⟨w ++ '\n' :: (Input.indentation n ++ rest), m⟩ ts indents depth false)
        (idle ⟨rest, (m.right w.length).down.right n⟩ (.scalar text plain :: ts) indents depth
          crossed) := by
  have ready : Ready
      (idle ⟨w ++ '\n' :: (Input.indentation n ++ rest), m⟩ ts indents depth false) :=
    ready_idle (writes.solid _) (by simp) within
  have step := reaches_of_token ready fun _ => token_line writes inside solid apart shallow closes
  -- A plain scalar takes the line break with it; behind a quoted one it is space.
  cases plain with
  | true =>
    refine ⟨true, fun _ => rfl, step ?_⟩
    simp [behind, idle]
    omega
  | false =>
    have line := reaches_line (t := idle ⟨w ++ '\n' :: (Input.indentation n ++ rest), m⟩
      (.scalar text false :: ts) indents depth false) (m := m.right w.length) (n := n) solid
    rw [idle_inFlow] at line
    refine ⟨!decide (0 < depth), by simp, (step ?_).trans line⟩
    exact writes.shorter _

variable (depth) in
theorem reaches_value_indicator (visible : IsVisible c)
    (stop : endsPlain (decide (0 < depth)) c rest = true)
    (within : 0 < depth ∨ ∀ n ∈ indents.head?, n ≤ m.column) :
    Reaches (idle ⟨w ++ c :: rest, m⟩ ts indents depth false)
      (idle ⟨c :: rest, m.right w.length⟩ (.scalar text plain :: ts) indents depth false) := by
  have ready : Ready (idle ⟨w ++ c :: rest, m⟩ ts indents depth false) :=
    ready_idle (writes.solid _) (by simp) within
  apply reaches_of_token ready fun _ => token_indicator writes inside visible stop
  exact writes.shorter _

/-- A key and the colon behind it. In block context the first key of a mapping opens it. -/
theorem reaches_key (opened : Bool)
    (opening : (!decide (0 < depth) && indents.head?.all (· < m.column)) = opened)
    (within : 0 < depth ∨ ∀ n ∈ indents.head?, n ≤ m.column) (short : w.length ≤ 1024) :
    Reaches (idle ⟨w ++ ':' :: ' ' :: rest, m⟩ ts indents depth true)
      (idle ⟨' ' :: rest, m.right (w.length + 1)⟩
        (.value :: .scalar text plain :: .key :: (if opened then .blockMappingStart :: ts else ts))
        (if opened then m.column :: indents else indents) depth false) := by
  have stop : endsPlain (decide (0 < depth)) ':' (' ' :: rest) = true := by
    simp [endsPlain, endsWord, isBlank]
  have ready : Ready (idle ⟨w ++ ':' :: ' ' :: rest, m⟩ ts indents depth true) :=
    ready_idle (writes.solid _) (by simp) within
  have first := reaches_of_token ready fun _ => token_indicator writes inside (by decide) stop
  have colon : Ready (behind ⟨':' :: ' ' :: rest, m.right w.length⟩ m text plain ts indents depth
      true false) := by
    refine ⟨?_, List.cons_ne_nil _ _, settle_eq_self ?_ ?_⟩
    · rintro c ⟨⟩
      decide
    · rintro c member d rfl
      rcases List.mem_cons.mp member with here | outer
      · cases here
        simp [isStale, behind, idle]
        omega
      · cases List.eq_of_mem_replicate outer
    · rcases within with flow | shallow
      · left
        cases depth with
        | zero => cases flow
        | succ depth => rfl
      · right
        intro n head
        exact Nat.le_add_right_of_le (shallow n head)
  refine (first ?_).trans (reaches_of_token colon ?_ ?_)
  · exact writes.shorter _
  · intro fuel enough
    rw [token_colon]
    exact value_behind opening
  · simp [idle, behind]

end

end Tokenizer

end ExprLexer.Yaml
