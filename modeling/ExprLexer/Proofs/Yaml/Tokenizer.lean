import ExprLexer.Proofs.Yaml.Plain
import ExprLexer.Proofs.Yaml.Quoted
import ExprLexer.Yaml.Tokenizer

/-!
# Steps of the tokenizer

`Reaches` relates two places of a run whose tokens are the same in the end. A run over a document
is put together from few steps: space between tokens, indicators, keys and values.
-/

namespace ExprLexer.Yaml.Tokenizer

/-- With fuel for the rest of its text, reading from `t` comes to the tokens that reading from `u`
gives. -/
def Reaches (t u : Tokenizer) : Prop :=
  ∀ fuel, t.input.rest.length + 2 ≤ fuel →
    ∃ fuel', u.input.rest.length + 2 ≤ fuel' ∧ run fuel t = run fuel' u

variable {t u v : Tokenizer}

theorem Reaches.refl (t : Tokenizer) : Reaches t t := fun fuel enough => ⟨fuel, enough, rfl⟩

theorem Reaches.trans (first : Reaches t u) (second : Reaches u v) : Reaches t v := by
  intro fuel enough
  obtain ⟨fuel', enough', run'⟩ := first fuel enough
  obtain ⟨fuel'', enough'', run''⟩ := second fuel' enough'
  exact ⟨fuel'', enough'', run'.trans run''⟩

theorem reaches_of_advance (tokens : t.tokens = u.tokens)
    (shorter : u.input.rest.length ≤ t.input.rest.length)
    (advances : ∀ fuel, t.input.rest.length < fuel → t.advance fuel = u.advance fuel) :
    Reaches t u := by
  intro fuel enough
  obtain ⟨fuel, rfl⟩ : ∃ k, fuel = k + 1 := ⟨fuel - 1, by omega⟩
  refine ⟨fuel + 1, by omega, ?_⟩
  rw [run, run, advances fuel (by omega), tokens]

/-! ### Space -/

/-- What is left of `advance` where a token starts. -/
def settle (t : Tokenizer) : Except Fault Tokenizer :=
  t.dropStale.map fun t => t.unwind (some t.column)

theorem skipByteOrderMark_of_ne (other : t.input.rest.head? ≠ some '\ufeff') :
    t.skipByteOrderMark = t := by
  unfold skipByteOrderMark
  rw [if_neg fun h => other h.2]

theorem advance_eq (other : t.input.rest.head? ≠ some '\ufeff') (fuel : Nat) :
    t.advance fuel = (t.skipSpace fuel).settle := by
  rw [advance, skipByteOrderMark_of_ne other, settle]
  cases (t.skipSpace fuel).dropStale with
  | error f => rfl
  | ok t => rfl

section

variable {n : Nat} {rest : List Char} {m : Mark} (solid : Input.Solid rest)
include solid

theorem skipSpace_indentation (fuel : Nat) :
    { t with input := ⟨Input.indentation n ++ rest, m⟩ }.skipSpace (fuel + 1) =
      { t with input := ⟨rest, m.right n⟩ } := by
  have line : Input.lineBreak? ⟨rest, m.right n⟩ = none := Input.lineBreak?_none solid.not_isBreak
  rw [skipSpace]
  dsimp only
  rw [Input.skipComment_solid n solid, line]

theorem skipSpace_line (fuel : Nat) :
    { t with input := ⟨'\n' :: (Input.indentation n ++ rest), m⟩ }.skipSpace (fuel + 2) =
      { t with input := ⟨rest, m.down.right n⟩, keyAllowed := t.keyAllowed || !t.inFlow } := by
  have here : Input.skipComment ⟨'\n' :: (Input.indentation n ++ rest), m⟩ =
      ⟨'\n' :: (Input.indentation n ++ rest), m⟩ := rfl
  rw [skipSpace]
  dsimp only
  rw [here, Input.lineBreak?_feed]
  dsimp only
  exact skipSpace_indentation (t := { t with keyAllowed := t.keyAllowed || !t.inFlow }) solid fuel

theorem head_ne_byteOrderMark : (Input.indentation n ++ rest).head? ≠ some '\ufeff' := by
  cases n with
  | succ n => nofun
  | zero =>
    intro head
    exact absurd (solid _ head).1 (by decide)

theorem reaches_indentation :
    Reaches { t with input := ⟨Input.indentation n ++ rest, m⟩ }
      { t with input := ⟨rest, m.right n⟩ } := by
  apply reaches_of_advance
  · rfl
  · simp
  · intro fuel enough
    obtain ⟨fuel, rfl⟩ : ∃ k, fuel = k + 1 := ⟨fuel - 1, by omega⟩
    have there := skipSpace_indentation (t := t) (n := 0) (m := m.right n) solid fuel
    rw [advance_eq (head_ne_byteOrderMark solid), advance_eq (head_ne_byteOrderMark (n := 0) solid),
      skipSpace_indentation solid]
    exact congrArg settle there.symm

theorem reaches_line :
    Reaches { t with input := ⟨'\n' :: (Input.indentation n ++ rest), m⟩ }
      { t with input := ⟨rest, m.down.right n⟩, keyAllowed := t.keyAllowed || !t.inFlow } := by
  apply reaches_of_advance
  · rfl
  · simp only [List.length_cons, List.length_append]
    omega
  · intro fuel enough
    dsimp only [List.length_cons] at enough
    obtain ⟨fuel, rfl⟩ : ∃ k, fuel = k + 2 := ⟨fuel - 2, by omega⟩
    have there := skipSpace_indentation (n := 0) (m := m.down.right n)
      (t := { t with keyAllowed := t.keyAllowed || !t.inFlow }) solid (fuel + 1)
    have feed : ('\n' :: (Input.indentation n ++ rest)).head? ≠ some '\ufeff' := by simp
    rw [advance_eq (by exact feed), advance_eq (head_ne_byteOrderMark (n := 0) solid),
      skipSpace_line solid]
    exact congrArg settle there.symm

end

/-! ### Tokens -/

/-- A token starts here, and nothing ends before it. -/
structure Ready (t : Tokenizer) : Prop where
  solid : Input.Solid t.input.rest
  more : t.input.rest ≠ []
  settled : t.settle = .ok t

theorem reaches_of_token (ready : Ready t)
    (reads : ∀ fuel, t.input.rest.length < fuel → t.token fuel = .ok u)
    (shorter : u.input.rest.length < t.input.rest.length) : Reaches t u := by
  intro fuel enough
  obtain ⟨fuel, rfl⟩ : ∃ k, fuel = k + 2 := ⟨fuel - 2, by omega⟩
  have here := skipSpace_indentation (t := t) (n := 0) (m := t.input.mark) ready.solid fuel
  have settled : t.advance (fuel + 1) = .ok t := by
    rw [advance_eq (head_ne_byteOrderMark (n := 0) ready.solid)]
    exact (congrArg settle here).trans ready.settled
  refine ⟨fuel + 1, by omega, ?_⟩
  rw [run, settled]
  dsimp only
  rw [if_neg ready.more, reads (fuel + 1) (by omega)]

theorem settle_eq_self
    (fresh : ∀ c ∈ t.candidate :: t.outer, ∀ d ∈ c, isStale t.input.mark d = false)
    (within : t.inFlow = true ∨ ∀ n ∈ t.indents.head?, n ≤ t.column) : t.settle = .ok t := by
  have clean : ∀ c ∈ t.candidate :: t.outer, c.any (isStale t.input.mark) = false := by
    rintro (_ | d) member
    · rfl
    · exact fresh _ member d rfl
  obtain ⟨first, later⟩ := List.forall_mem_cons.mp clean
  have kept : t.dropStale = .ok t := by
    have outer : t.outer.map (fun c => if c.any (isStale t.input.mark) then none else c) =
        t.outer.map id := by
      apply List.map_congr_left
      intro c member
      rw [later c member]
      rfl
    have nothing : ((t.candidate :: t.outer).any fun c =>
        c.any (isStale t.input.mark) && c.any (·.required)) = false := by
      rw [List.any_eq_false]
      intro c member
      rw [clean c member]
      exact Bool.false_ne_true
    rw [dropStale]
    simp only [nothing, first, outer, List.map_id, Bool.false_eq_true, if_false]
  have still : t.unwind (some t.column) = t := by
    rcases within with flow | shallow
    · exact if_pos flow
    · obtain ⟨input, tokens, count, indents, keyAllowed, candidate, outer⟩ := t
      unfold unwind
      split
      · rfl
      · cases indents with
        | nil => rfl
        | cons n ns =>
          have least := shallow n rfl
          simp [Nat.not_lt.mpr least]
  rw [settle, kept]
  exact congrArg Except.ok still

/-! ### Places without candidates -/

/-- The tokenizer behind the tokens `ts`, the last one first, inside `depth` flow collections, where
no key has started. -/
def idle (i : Input) (ts : List Token) (indents : List Nat) (depth : Nat) (allowed : Bool) :
    Tokenizer :=
  ⟨i, ts, ts.length, indents, allowed, none, List.replicate depth none⟩

section

variable {i : Input} {ts : List Token} {indents : List Nat} {depth : Nat} {allowed : Bool}
  {rest : List Char} {m : Mark}

theorem idle_inFlow (i : Input) (ts : List Token) (indents : List Nat) (depth : Nat)
    (allowed : Bool) : (idle i ts indents depth allowed).inFlow = decide (0 < depth) := by
  cases depth <;> rfl

theorem settle_idle (within : 0 < depth ∨ ∀ n ∈ indents.head?, n ≤ i.mark.column) :
    (idle i ts indents depth allowed).settle = .ok (idle i ts indents depth allowed) := by
  apply settle_eq_self
  · rintro c member d rfl
    rcases List.mem_cons.mp member with here | outer
    · cases here
    · cases List.eq_of_mem_replicate outer
  · rwa [idle_inFlow, decide_eq_true_eq]

theorem ready_idle (solid : Input.Solid i.rest) (more : i.rest ≠ [])
    (within : 0 < depth ∨ ∀ n ∈ indents.head?, n ≤ i.mark.column) :
    Ready (idle i ts indents depth allowed) :=
  ⟨solid, more, settle_idle within⟩

theorem advance_idle (solid : Input.Solid i.rest) (fuel : Nat) :
    (idle i ts indents depth allowed).advance (fuel + 1) =
      (idle i ts indents depth allowed).settle := by
  have here := skipSpace_indentation (t := idle i ts indents depth allowed) (n := 0) (m := i.mark)
    solid fuel
  rw [advance_eq (head_ne_byteOrderMark (n := 0) solid)]
  exact congrArg settle here

/-- A block collection ends where a line is indented less. -/
theorem reaches_unwind {deep : Nat} (solid : Input.Solid rest) (less : m.column < deep)
    (within : ∀ n ∈ indents.head?, n ≤ m.column) :
    Reaches (idle ⟨rest, m⟩ ts (deep :: indents) 0 allowed)
      (idle ⟨rest, m⟩ (.blockEnd :: ts) indents 0 allowed) := by
  have closes : (idle ⟨rest, m⟩ ts (deep :: indents) 0 allowed).settle =
      .ok (idle ⟨rest, m⟩ (.blockEnd :: ts) indents 0 allowed) := by
    cases indents with
    | nil => simp [settle, dropStale, idle, unwind, inFlow, column, less, Except.map]
    | cons n ns =>
      have least := Nat.not_lt.mpr (within n rfl)
      simp [settle, dropStale, idle, unwind, inFlow, column, less, least, Except.map]
  intro fuel enough
  obtain ⟨fuel, rfl⟩ : ∃ k, fuel = k + 2 := ⟨fuel - 2, by omega⟩
  refine ⟨fuel + 2, enough, ?_⟩
  rw [run, run, advance_idle solid, advance_idle solid, closes, settle_idle (.inr within)]

theorem run_end (within : ∀ n ∈ indents.head?, n ≤ m.column) (fuel : Nat) :
    run (fuel + 2) (idle ⟨[], m⟩ ts indents 0 allowed) =
      .streamEnd :: (List.replicate indents.length .blockEnd ++ ts) := by
  have solid : Input.Solid [] := fun c head => nomatch head
  have all : ∀ ns : List Nat, ns.takeWhile (fun _ => true) = ns := by
    intro ns
    induction ns with
    | nil => rfl
    | cons n ns ih => rw [List.takeWhile_cons_of_pos rfl, ih]
  have ended : (idle ⟨[], m⟩ ts indents 0 allowed).input.rest = [] := rfl
  rw [run, advance_idle (by exact solid), settle_idle (.inr within)]
  dsimp only
  rw [if_pos ended]
  simp [unwind, idle, inFlow, dropCandidate, all, List.map_const']

theorem tokens_of_reaches {cs : List Char} (valid : ∀ c ∈ cs, isAllowed c = true)
    (within : ∀ n ∈ indents.head?, n ≤ m.column)
    (reaches : Reaches (start cs) (idle ⟨[], m⟩ ts indents 0 allowed)) :
    Yaml.tokens cs = ts.reverse ++ (List.replicate indents.length .blockEnd ++ [.streamEnd]) := by
  obtain ⟨fuel, enough, run'⟩ := reaches (cs.length + 2) (Nat.le_refl _)
  obtain ⟨fuel, rfl⟩ : ∃ k, fuel = k + 2 := ⟨fuel - 2, by omega⟩
  rw [Yaml.tokens, if_pos (List.all_eq_true.mpr valid), run', run_end within]
  simp

end

end ExprLexer.Yaml.Tokenizer
