import ExprLexer.Proofs.Yaml.Node

/-!
# Mappings in flow context

Records between brackets, with one entry a line and commas between them. A bracket may turn out to
be a key until its line ends, which is before anything else stands on it.
-/

namespace ExprLexer.Yaml

def openingBracket (mapping : Bool) : Char := if mapping then '\x7b' else '['

def closingBracket (mapping : Bool) : Char := if mapping then '\x7d' else ']'

def openingToken (mapping : Bool) : Token :=
  if mapping then .flowMappingStart else .flowSequenceStart

def closingToken (mapping : Bool) : Token :=
  if mapping then .flowMappingEnd else .flowSequenceEnd

/-- What stands between two items on lines of their own. -/
def commaLine (n : Nat) : List Char := ',' :: '\n' :: Input.indentation n

/-- Items with commas between them, and the text behind the last one. -/
def commaLines (n : Nat) (after : List Char) : List Char → List (List Char) → List Char
  | w, [] => w ++ after
  | w, v :: more => w ++ (commaLine n ++ commaLines n after v more)

def commaTokens : List Token → List (List Token) → List Token
  | k, [] => k
  | k, l :: more => k ++ .flowEntry :: commaTokens l more

/-- A collection with each item on a line of its own. -/
def bracketed (mapping : Bool) (n outer : Nat) (w : List Char) (more : List (List Char)) :
    List Char :=
  openingBracket mapping :: '\n' :: (Input.indentation n ++
    commaLines n ('\n' :: (Input.indentation outer ++ [closingBracket mapping])) w more)

def bracketedTokens (mapping : Bool) (k : List Token) (more : List (List Token)) : List Token :=
  openingToken mapping :: (commaTokens k more ++ [closingToken mapping])

theorem isVisible_openingBracket (mapping : Bool) :
    IsVisible (openingBracket mapping) ∧ openingBracket mapping ≠ '#' := by
  cases mapping <;> decide

theorem isVisible_closingBracket (mapping : Bool) :
    IsVisible (closingBracket mapping) ∧ closingBracket mapping ≠ '#' := by
  cases mapping <;> decide

theorem commaLines_append (n : Nat) (after rest w : List Char) (more : List (List Char)) :
    commaLines n after w more ++ rest = commaLines n (after ++ rest) w more := by
  induction more generalizing w with
  | nil => exact List.append_assoc _ _ _
  | cons v more ih => rw [commaLines, commaLines, List.append_assoc, List.append_assoc, ih]

theorem commaLines_solid {w : List Char} (solid : ∀ rest, Input.Solid (w ++ rest)) (n : Nat)
    (after : List Char) (more : List (List Char)) : Input.Solid (commaLines n after w more) := by
  cases more with
  | nil => exact solid _
  | cons v more => exact solid _

namespace Tokenizer

variable {ts : List Token} {depth n : Nat} {allowed : Bool} {m : Mark} {rest : List Char}

/-! ### Brackets and commas -/

theorem solid_cons {c : Char} (first : IsVisible c ∧ c ≠ '#') : Input.Solid (c :: rest) := by
  rintro d ⟨⟩
  exact first

theorem ready_mark {c : Char} (first : IsVisible c ∧ c ≠ '#') :
    Ready (idle ⟨c :: rest, m⟩ ts [] depth allowed) :=
  ready_idle (solid_cons first) (List.cons_ne_nil c rest) (.inr nofun)

/-- The tokenizer behind an opening bracket, which may turn out to be a key. -/
def behindBracket (c : Candidate) (i : Input) (ts : List Token) (depth : Nat) : Tokenizer :=
  ⟨i, ts, ts.length, [], true, none, some c :: List.replicate depth none⟩

theorem reaches_line_bracket {c : Candidate} (ts : List Token) (solid : Input.Solid rest)
    (optional : c.required = false) (here : c.mark.line ≤ m.line) :
    Reaches (behindBracket c ⟨'\n' :: (Input.indentation n ++ rest), m⟩ ts depth)
      (idle ⟨rest, m.down.right n⟩ ts [] (depth + 1) true) := by
  -- The line break makes the candidate stale, so that settling drops it on the next line.
  have other : c.mark.line ≠ m.line + 1 := by omega
  have stale : isStale (m.down.right n) c = true := by simp [isStale, other]
  have settled : (behindBracket c ⟨rest, m.down.right n⟩ ts depth).settle =
      (idle ⟨rest, m.down.right n⟩ ts [] (depth + 1) true).settle := by
    simp [settle, dropStale, idle, behindBracket, stale, optional, List.replicate_succ]
  have line := reaches_line (m := m) (n := n) solid (t := behindBracket c ⟨rest, m⟩ ts depth)
  refine line.trans (reaches_of_advance rfl (Nat.le_refl _) ?_)
  intro fuel enough
  obtain ⟨fuel, rfl⟩ : ∃ k, fuel = k + 1 := ⟨fuel - 1, by omega⟩
  have there := skipSpace_indentation (n := 0) (m := m.down.right n) solid fuel
    (t := behindBracket c ⟨rest, m.down.right n⟩ ts depth)
  rw [advance_idle solid, ← settled, advance_eq (head_ne_byteOrderMark (n := 0) solid)]
  exact congrArg settle there

theorem reaches_opening {mapping : Bool} (solid : Input.Solid rest) :
    Reaches (idle ⟨openingBracket mapping :: '\n' :: (Input.indentation n ++ rest), m⟩ ts [] depth
        true)
      (idle ⟨rest, (m.right 1).down.right n⟩ (openingToken mapping :: ts) [] (depth + 1) true) := by
  have mark := isVisible_openingBracket mapping
  have step := Input.step_narrow mark.1.isNarrow ('\n' :: (Input.indentation n ++ rest)) m
  have line : Reaches (behindBracket ⟨ts.length, false, m⟩
      ⟨'\n' :: (Input.indentation n ++ rest), m.right 1⟩ (openingToken mapping :: ts) depth)
        (idle ⟨rest, (m.right 1).down.right n⟩ (openingToken mapping :: ts) [] (depth + 1) true) :=
    reaches_line_bracket _ solid rfl (Nat.le_refl _)
  refine (reaches_of_token (ready_mark mark) ?_ ?_).trans line
  · intro fuel enough
    have here : ∀ t : Tokenizer, t.input.rest = openingBracket mapping :: '\n' ::
        (Input.indentation n ++ rest) → t.token fuel = t.openFlow (openingToken mapping) := by
      intro t front
      cases mapping <;> simp [token, front, openingBracket, openingToken, atSeparator]
    rw [here _ rfl, openFlow, saveCandidate_idle]
    simp [bind, Except.bind, candidateAt, idle, behindBracket, indicator, push, Input.skip, step]
  · simp [idle, behindBracket]

theorem reaches_closing {mapping : Bool} :
    Reaches (idle ⟨closingBracket mapping :: rest, m⟩ ts [] (depth + 1) allowed)
      (idle ⟨rest, m.right 1⟩ (closingToken mapping :: ts) [] depth false) := by
  have mark := isVisible_closingBracket mapping
  have step := Input.step_narrow mark.1.isNarrow rest m
  apply reaches_of_token (ready_mark mark)
  · intro fuel enough
    have here : ∀ t : Tokenizer, t.input.rest = closingBracket mapping :: rest →
        t.token fuel = t.closeFlow (closingToken mapping) := by
      intro t front
      cases mapping <;> simp [token, front, closingBracket, closingToken, atSeparator]
    rw [here _ rfl]
    simp [closeFlow, dropCandidate, bind, Except.bind, idle, indicator, push, Input.skip, step,
      List.replicate_succ]
  · simp [idle]

theorem reaches_comma (solid : Input.Solid rest) :
    Reaches (idle ⟨commaLine n ++ rest, m⟩ ts [] (depth + 1) allowed)
      (idle ⟨rest, (m.right 1).down.right n⟩ (.flowEntry :: ts) [] (depth + 1) true) := by
  have narrow : IsNarrow ',' := by decide
  have step := Input.step_narrow narrow ('\n' :: (Input.indentation n ++ rest)) m
  have line := reaches_line (m := m.right 1) (n := n) solid
    (t := idle ⟨rest, m⟩ (.flowEntry :: ts) [] (depth + 1) true)
  refine (reaches_of_token (ready_mark (by decide)) ?_ ?_).trans line
  · intro fuel enough
    have here : ∀ t : Tokenizer, t.input.rest = ',' :: '\n' :: (Input.indentation n ++ rest) →
        t.token fuel = t.flowEntry := by
      intro t front
      simp [token, front, atSeparator]
    rw [here _ rfl]
    simp [flowEntry, dropCandidate, bind, Except.bind, idle, indicator, push, Input.skip, step]
  · simp [idle]

/-! ### Items -/

/-- The characters `w` are an item of a collection and have the tokens `k`, be it the last one or
not. Items start at the column `n`, inside `depth` flow collections. -/
structure Listed (mapping : Bool) (depth n : Nat) (w : List Char) (k : List Token) : Prop where
  solid : ∀ rest, Input.Solid (w ++ rest)
  beforeComma : ∀ ts m rest, m.column = n → ∃ m' allowed,
    Reaches (idle ⟨w ++ ',' :: '\n' :: rest, m⟩ ts [] depth true)
      (idle ⟨',' :: '\n' :: rest, m'⟩ (k.reverse ++ ts) [] depth allowed)
  beforeEnd : ∀ ts m outer rest, m.column = n → ∃ m' allowed,
    Reaches (idle ⟨w ++ '\n' :: (Input.indentation outer ++ closingBracket mapping :: rest), m⟩ ts
        [] depth true)
      (idle ⟨closingBracket mapping :: rest, m'⟩ (k.reverse ++ ts) [] depth allowed)

section

variable {ι : Type} {text : ι → List Char} {tokens : ι → List Token} {mapping : Bool}
  (outer : Nat) (rest : List Char) {x : ι} {more : List ι}

theorem reaches_commaLines (ts : List Token) (column : m.column = n)
    (listed : ∀ y ∈ x :: more, Listed mapping (depth + 1) n (text y) (tokens y)) :
    ∃ m' allowed,
      Reaches (idle ⟨commaLines n
          ('\n' :: (Input.indentation outer ++ closingBracket mapping :: rest)) (text x)
          (more.map text), m⟩ ts [] (depth + 1) true)
        (idle ⟨closingBracket mapping :: rest, m'⟩
          ((commaTokens (tokens x) (more.map tokens)).reverse ++ ts) [] (depth + 1) allowed) := by
  obtain ⟨first, later⟩ := List.forall_mem_cons.mp listed
  -- Behind each comma the next item starts at the same column, with a key allowed again.
  induction more generalizing x m ts with
  | nil => exact first.beforeEnd ts m outer rest column
  | cons y more ih =>
    obtain ⟨second, others⟩ := List.forall_mem_cons.mp later
    have solid := commaLines_solid second.solid n
      ('\n' :: (Input.indentation outer ++ closingBracket mapping :: rest)) (more.map text)
    obtain ⟨m', allowed, item⟩ := first.beforeComma ts m _ column
    have next : ((m'.right 1).down.right n).column = n := by simp
    obtain ⟨m'', allowed', items⟩ := ih (.flowEntry :: ((tokens x).reverse ++ ts)) next later second
      others
    have all : (commaTokens (tokens x) ((y :: more).map tokens)).reverse ++ ts =
        (commaTokens (tokens y) (more.map tokens)).reverse ++
          .flowEntry :: ((tokens x).reverse ++ ts) := by
      simp [commaTokens]
    rw [all]
    exact ⟨m'', allowed', item.trans ((reaches_comma solid).trans items)⟩

theorem reaches_bracketed (ts : List Token)
    (listed : ∀ y ∈ x :: more, Listed mapping (depth + 1) n (text y) (tokens y)) :
    ∃ m', Reaches (idle ⟨bracketed mapping n outer (text x) (more.map text) ++ rest, m⟩ ts [] depth
        true)
      (idle ⟨rest, m'⟩ ((bracketedTokens mapping (tokens x) (more.map tokens)).reverse ++ ts) []
        depth false) := by
  have whole : bracketed mapping n outer (text x) (more.map text) ++ rest =
      openingBracket mapping :: '\n' :: (Input.indentation n ++ commaLines n
        ('\n' :: (Input.indentation outer ++ closingBracket mapping :: rest)) (text x)
        (more.map text)) := by
    simp [bracketed, commaLines_append]
  have solid := commaLines_solid (listed x List.mem_cons_self).solid n
    ('\n' :: (Input.indentation outer ++ closingBracket mapping :: rest)) (more.map text)
  have column : ((m.right 1).down.right n).column = n := by simp
  obtain ⟨m', allowed, items⟩ := reaches_commaLines outer rest (openingToken mapping :: ts) column
    listed
  have all : (bracketedTokens mapping (tokens x) (more.map tokens)).reverse ++ ts =
      closingToken mapping :: ((commaTokens (tokens x) (more.map tokens)).reverse ++
        openingToken mapping :: ts) := by
    simp [bracketedTokens]
  rw [whole, all]
  exact ⟨_, (reaches_opening solid).trans (items.trans reaches_closing)⟩

/-- A mapping or a sequence is an item itself. -/
theorem listed_bracketed
    (listed : ∀ y ∈ x :: more, Listed mapping (depth + 2) n (text y) (tokens y)) (mapping' : Bool)
    (n' : Nat) :
    Listed mapping' (depth + 1) n' (bracketed mapping n outer (text x) (more.map text))
      (bracketedTokens mapping (tokens x) (more.map tokens)) := by
  refine ⟨fun rest => ?_, fun ts m rest column => ?_, fun ts m outer' rest column => ?_⟩
  · exact solid_cons (isVisible_openingBracket mapping)
  · obtain ⟨m', step⟩ := reaches_bracketed (m := m) outer (',' :: '\n' :: rest) ts listed
    exact ⟨m', false, step⟩
  · obtain ⟨m', step⟩ := reaches_bracketed (m := m) outer
      ('\n' :: (Input.indentation outer' ++ closingBracket mapping' :: rest)) ts listed
    have solid : Input.Solid (closingBracket mapping' :: rest) :=
      solid_cons (isVisible_closingBracket mapping')
    have line := reaches_line (m := m') (n := outer') solid
      (t := idle ⟨rest, m⟩ ((bracketedTokens mapping (tokens x) (more.map tokens)).reverse ++ ts) []
        (depth + 1) false)
    exact ⟨_, false, step.trans line⟩

end

theorem listed_field (f : Field true) (indented : n ≠ 0) : Listed true 2 n f.line f.tokens := by
  have behind : ∀ m : Mark, (m.right (f.key.length + 2)).column ≠ 0 := fun m => by simp
  refine ⟨f.line_solid, fun ts m rest column => ?_, fun ts m outer rest column => ?_⟩
  · have name : Reaches (idle ⟨f.line ++ ',' :: '\n' :: rest, m⟩ ts [] 2 true)
        (idle ⟨f.value ++ ',' :: '\n' :: rest, m.right (f.key.length + 2)⟩
          (.value :: .scalar f.name f.keyPlain :: .key :: ts) [] 2 false) :=
      reaches_name 2 f (column ▸ indented) rfl (.inl (by decide))
    have comma : IsVisible ',' := by decide
    exact ⟨_, false, name.trans
      (reaches_value_indicator 2 f.writesValue (behind m) comma rfl (.inl (by decide)))⟩
  · have name : Reaches (idle ⟨f.line ++ '\n' :: (Input.indentation outer ++ '\x7d' :: rest), m⟩ ts
          [] 2 true)
        (idle ⟨f.value ++ '\n' :: (Input.indentation outer ++ '\x7d' :: rest),
          m.right (f.key.length + 2)⟩ (.value :: .scalar f.name f.keyPlain :: .key :: ts) [] 2
          false) :=
      reaches_name 2 f (column ▸ indented) rfl (.inl (by decide))
    have solid : Input.Solid ('\x7d' :: rest) := solid_cons (by decide)
    have apart : atSeparator (Input.indentation outer ++ '\x7d' :: rest) = false := by
      cases outer <;> rfl
    obtain ⟨allowed, -, value⟩ := reaches_value_line 2 f.writesValue (behind m) solid apart
      (.inl (by decide)) nofun (fun _ => rfl)
    exact ⟨_, allowed, name.trans value⟩

end Tokenizer

/-! ### Documents -/

namespace Item

def flowText (i : Item true) : List Char := bracketed true 4 2 i.first.line (i.more.map Field.line)

def flowTokens (i : Item true) : List Token :=
  bracketedTokens true i.first.tokens (i.more.map Field.tokens)

end Item

section

variable {n : Nat} {w : List Char} {more : List (List Char)}
  (allowed : ∀ v ∈ w :: more, ∀ c ∈ v, isAllowed c = true)
include allowed

theorem commaLines_allowed {after : List Char} (behind : ∀ c ∈ after, isAllowed c = true) :
    ∀ c ∈ commaLines n after w more, isAllowed c = true := by
  induction more generalizing w with
  | nil =>
    intro c member
    rcases List.mem_append.mp member with member | member
    · exact allowed w List.mem_cons_self c member
    · exact behind c member
  | cons v more ih =>
    obtain ⟨first, later⟩ := List.forall_mem_cons.mp allowed
    intro c member
    simp only [commaLines, commaLine, List.mem_append, List.mem_cons] at member
    rcases member with member | (rfl | rfl | blank) | member
    · exact first c member
    · rfl
    · rfl
    · exact (Input.indentation_narrow n c blank).isAllowed
    · exact ih later c member

theorem bracketed_allowed {mapping : Bool} {outer : Nat} :
    ∀ c ∈ bracketed mapping n outer w more, isAllowed c = true := by
  intro c member
  simp only [bracketed, List.mem_append, List.mem_cons] at member
  rcases member with rfl | rfl | blank | member
  · exact (isVisible_openingBracket mapping).1.isNarrow.isAllowed
  · rfl
  · exact (Input.indentation_narrow n c blank).isAllowed
  · refine commaLines_allowed allowed ?_ c member
    simp only [List.mem_append, List.mem_cons, List.not_mem_nil, or_false]
    rintro c (rfl | blank | rfl)
    · rfl
    · exact (Input.indentation_narrow outer c blank).isAllowed
    · exact (isVisible_closingBracket mapping).1.isNarrow.isAllowed

end

theorem Item.flowText_allowed (i : Item true) : ∀ c ∈ i.flowText, isAllowed c = true := by
  apply bracketed_allowed
  intro v member
  obtain ⟨f, -, rfl⟩ := List.mem_map.mp (show v ∈ (i.first :: i.more).map Field.line from member)
  exact fun c inside => (f.line_narrow c inside).isAllowed

/-- The tokens of a flow sequence of mappings. -/
theorem tokens_flowItems (i : Item true) (items : List (Item true)) :
    tokens (bracketed false 2 0 i.flowText (items.map Item.flowText) ++ ['\n']) =
      bracketedTokens false i.flowTokens (items.map Item.flowTokens) ++ [.streamEnd] := by
  have fields : ∀ j : Item true, ∀ f ∈ j.first :: j.more,
      Tokenizer.Listed true 2 4 f.line f.tokens := fun j f _ =>
    Tokenizer.listed_field f (by decide)
  have listed : ∀ j ∈ i :: items, Tokenizer.Listed false 1 2 j.flowText j.flowTokens := fun j _ =>
    Tokenizer.listed_bracketed 2 (fields j) false 2
  obtain ⟨m, whole⟩ := Tokenizer.reaches_bracketed (m := ⟨0, 0, 0⟩) 0 ['\n'] [] listed
  have ended : Input.Solid [] := nofun
  have line := Tokenizer.reaches_line (n := 0) (m := m) ended
    (t := Tokenizer.idle ⟨[], m⟩
      ((bracketedTokens false i.flowTokens (items.map Item.flowTokens)).reverse ++ []) [] 0 false)
  have valid : ∀ c ∈ bracketed false 2 0 i.flowText (items.map Item.flowText) ++ ['\n'],
      isAllowed c = true := by
    intro c member
    rcases List.mem_append.mp member with member | member
    · refine bracketed_allowed (fun v inside => ?_) c member
      obtain ⟨j, -, rfl⟩ := List.mem_map.mp
        (show v ∈ (i :: items).map Item.flowText from inside)
      exact j.flowText_allowed
    · rw [List.mem_singleton.mp member]
      rfl
  have least : ∀ n ∈ ([] : List Nat).head?, n ≤ (m.down.right 0).column := nofun
  rw [Tokenizer.tokens_of_reaches valid least (whole.trans line)]
  simp [Tokenizer.idle]

/-! ### Nodes -/

namespace Node

variable {rest : List Token} {anchors : List (List Char × Option Node)}
  {handles : List (List Char × List Char)}

/-- Before each entry or item but the first one stands a comma. -/
def comma (first : Bool) : List Token := if first then [] else [.flowEntry]

theorem flowEntries_fields (f : Field true) (fs : List (Field true)) (first : Bool) {fuel : Nat}
    (enough : fs.length + 5 ≤ fuel) :
    flowEntries fuel first ⟨comma first ++ (commaTokens f.tokens (fs.map Field.tokens) ++
        .flowMappingEnd :: rest), anchors, handles⟩ =
      .ok ((f :: fs).map Field.node, ⟨rest, anchors, handles⟩) := by
  have step : ∀ (f : Field true) first fuel ts,
      flowEntries (fuel + 4) first ⟨comma first ++ (f.tokens ++ ts), anchors, handles⟩ =
        (flowEntries (fuel + 3) false ⟨ts, anchors, handles⟩).map fun r =>
          (f.node :: r.1, r.2) := by
    intro f first fuel ts
    cases first <;> rfl
  obtain ⟨fuel, rfl⟩ : ∃ k, fuel = k + 4 := ⟨fuel - 4, by omega⟩
  induction fs generalizing f first fuel with
  | nil =>
    rw [List.map_nil, commaTokens, step]
    rfl
  | cons g fs ih =>
    rw [List.length_cons] at enough
    obtain ⟨fuel, rfl⟩ : ∃ k, fuel = k + 1 := ⟨fuel - 1, by omega⟩
    have later := ih g false fuel (by omega)
    rw [List.map_cons, commaTokens, List.append_assoc, step]
    exact congrArg (Except.map fun (r : List (Node × Node) × Stream) => (f.node :: r.1, r.2)) later

theorem node_flowItem (i : Item true) {fuel : Nat} (enough : i.more.length + 7 ≤ fuel) :
    node .flow fuel ⟨i.flowTokens ++ rest, anchors, handles⟩ =
      .ok (i.node, ⟨rest, anchors, handles⟩) := by
  obtain ⟨fuel, rfl⟩ : ∃ k, fuel = k + 2 := ⟨fuel - 2, by omega⟩
  have room : i.more.length + 5 ≤ fuel := by omega
  have mapping : content .flow (fuel + 1) none false
      ⟨.flowMappingStart :: (commaTokens i.first.tokens (i.more.map Field.tokens) ++
        .flowMappingEnd :: rest), anchors, handles⟩ = .ok (i.node, ⟨rest, anchors, handles⟩) := by
    unfold content
    exact congrArg (Except.map fun r : List (Node × Node) × Stream => (mapping .map r.1, r.2))
      (flowEntries_fields i.first i.more true room)
  have tokens : i.flowTokens ++ rest = .flowMappingStart ::
      (commaTokens i.first.tokens (i.more.map Field.tokens) ++ .flowMappingEnd :: rest) := by
    simp [Item.flowTokens, bracketedTokens, openingToken, closingToken]
  rw [tokens]
  exact node_of_content (.inr (.inr (.inr rfl))) mapping

theorem length_commaTokens (k : List Token) (more : List (List Token)) :
    (commaTokens k more).length = k.length + (more.map (·.length + 1)).sum := by
  induction more generalizing k with
  | nil => rfl
  | cons l more ih =>
    rw [commaTokens, List.length_append, List.length_cons, ih, List.map_cons, List.sum_cons]
    omega

theorem length_flowTokens (i : Item true) : i.more.length + 6 ≤ i.flowTokens.length := by
  have fields : ∀ fs : List (Field true),
      fs.length ≤ ((fs.map Field.tokens).map (·.length + 1)).sum := by
    intro fs
    induction fs with
    | nil => exact Nat.le_refl _
    | cons f fs ih =>
      rw [List.map_cons, List.map_cons, List.sum_cons, List.length_cons]
      omega
  have first : i.first.tokens.length = 4 := rfl
  have more := fields i.more
  rw [Item.flowTokens, bracketedTokens, List.length_cons, List.length_append, length_commaTokens,
    List.length_singleton]
  omega

theorem flowItems_item (i : Item true) (first : Bool) (fuel : Nat) (ts : List Token) :
    flowItems (fuel + 1) first ⟨comma first ++ (i.flowTokens ++ ts), anchors, handles⟩ =
      match node .flow fuel ⟨i.flowTokens ++ ts, anchors, handles⟩ with
      | .error f => .error f
      | .ok (x, s) => (flowItems fuel false s).map fun (xs, s) => (x :: xs, s) := by
  cases first <;> rfl

theorem flowItems_items (i : Item true) (items : List (Item true)) (first : Bool) {fuel : Nat}
    (enough : (commaTokens i.flowTokens (items.map Item.flowTokens)).length + 4 ≤ fuel) :
    flowItems fuel first ⟨comma first ++ (commaTokens i.flowTokens (items.map Item.flowTokens) ++
        .flowSequenceEnd :: rest), anchors, handles⟩ =
      .ok ((i :: items).map Item.node, ⟨rest, anchors, handles⟩) := by
  obtain ⟨fuel, rfl⟩ : ∃ k, fuel = k + 1 := ⟨fuel - 1, by omega⟩
  induction items generalizing i first fuel with
  | nil =>
    have length := length_flowTokens i
    rw [List.map_nil, commaTokens] at enough ⊢
    obtain ⟨fuel, rfl⟩ : ∃ k, fuel = k + 1 := ⟨fuel - 1, by omega⟩
    rw [flowItems_item, node_flowItem i (by omega)]
    rfl
  | cons j items ih =>
    have length := length_flowTokens i
    rw [List.map_cons, commaTokens, List.length_append, List.length_cons] at enough
    obtain ⟨fuel, rfl⟩ : ∃ k, fuel = k + 1 := ⟨fuel - 1, by omega⟩
    have later := ih j false fuel (by omega)
    rw [List.map_cons, commaTokens, List.append_assoc, flowItems_item, node_flowItem i (by omega)]
    exact congrArg (Except.map fun (r : List Node × Stream) => (i.node :: r.1, r.2)) later

/-- The document of a flow sequence of records. -/
theorem ofTokens_flowItems (i : Item true) (items : List (Item true)) :
    ofTokens (bracketedTokens false i.flowTokens (items.map Item.flowTokens) ++ [.streamEnd]) =
      .ok (some (.sequence .seq ((i :: items).map Item.node))) := by
  have tokens : bracketedTokens false i.flowTokens (items.map Item.flowTokens) ++ [.streamEnd] =
      .flowSequenceStart :: (commaTokens i.flowTokens (items.map Item.flowTokens) ++
        [.flowSequenceEnd, .streamEnd]) := by
    simp [bracketedTokens, openingToken, closingToken]
  have room : (commaTokens i.flowTokens (items.map Item.flowTokens)).length + 4 ≤
      3 * (commaTokens i.flowTokens (items.map Item.flowTokens)).length + 10 := by omega
  rw [tokens]
  apply ofTokens_of_content (.inr (.inr (.inl rfl)))
  simp only [List.length_cons, List.length_append, List.length_nil, Nat.mul_add, content]
  exact congrArg (Except.map fun r : List Node × Stream => (sequence .seq r.1, r.2))
    (flowItems_items i items true room)

end Node

end ExprLexer.Yaml
