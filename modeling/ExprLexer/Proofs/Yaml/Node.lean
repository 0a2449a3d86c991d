import ExprLexer.Proofs.Yaml.Fields
import ExprLexer.Yaml.Node

/-!
# Nodes of records

The tokens of a sequence of mappings give the nodes that their fields write.
-/

namespace ExprLexer.Yaml

namespace Field

variable {flow : Bool}

def node (f : Field flow) : Node × Node :=
  (.scalar (Node.scalarTag none f.name f.keyPlain) f.name,
    .scalar (Node.scalarTag none f.text f.valuePlain) f.text)

end Field

def Item.node {flow : Bool} (i : Item flow) : Node :=
  .mapping .map ((i.first :: i.more).map Field.node)

namespace Node

variable {rest : List Token} {anchors : List (List Char × Option Node)}
  {handles : List (List Char × List Char)}

/-- The tokens that open a collection, before which no property stands. -/
def opensCollection (t : Token) : Prop :=
  t = .blockSequenceStart ∨ t = .blockMappingStart ∨ t = .flowSequenceStart ∨ t = .flowMappingStart

theorem node_eq_content {t : Token} (opening : opensCollection t) (place : Place) (fuel : Nat) :
    node place (fuel + 1) ⟨t :: rest, anchors, handles⟩ =
      match content place fuel none false ⟨t :: rest, anchors, handles⟩ with
      | .error f => .error f
      | .ok (n, s) => .ok (n, s) := by
  rcases opening with rfl | rfl | rfl | rfl <;> rfl

theorem node_of_content {place : Place} {t : Token} {fuel : Nat} {n : Node} {s : Stream}
    (opening : opensCollection t)
    (read : content place fuel none false ⟨t :: rest, anchors, handles⟩ = .ok (n, s)) :
    node place (fuel + 1) ⟨t :: rest, anchors, handles⟩ = .ok (n, s) := by
  rw [node_eq_content opening, read]

theorem ofTokens_of_content {t : Token} {n : Node} (opening : opensCollection t)
    (read : content .block (3 * (t :: rest).length + 2) none false ⟨t :: rest, [], defaultHandles⟩ =
      .ok (n, ⟨[.streamEnd], anchors, handles⟩)) : ofTokens (t :: rest) = .ok (some n) := by
  have document : ofTokens (t :: rest) =
      (node .block (3 * (t :: rest).length + 3) ⟨t :: rest, [], defaultHandles⟩).bind fun r =>
        (finish r.2).bind fun _ => .ok (some r.1) := by
    rcases opening with rfl | rfl | rfl | rfl <;> rfl
  rw [document, node_of_content opening read]
  rfl

/-! ### Blocks -/

theorem blockEntries_fields (fs : List (Field false)) {fuel : Nat} (enough : fs.length + 4 ≤ fuel) :
    blockEntries fuel ⟨fs.flatMap Field.tokens ++ .blockEnd :: rest, anchors, handles⟩ =
      .ok (fs.map Field.node, ⟨rest, anchors, handles⟩) := by
  induction fs generalizing fuel with
  | nil =>
    obtain ⟨fuel, rfl⟩ : ∃ k, fuel = k + 1 := ⟨fuel - 1, by omega⟩
    rfl
  | cons f fs ih =>
    rw [List.length_cons] at enough
    obtain ⟨fuel, rfl⟩ : ∃ k, fuel = k + 4 := ⟨fuel - 4, by omega⟩
    have first : ∀ ts, blockEntries (fuel + 4) ⟨f.tokens ++ ts, anchors, handles⟩ =
        (blockEntries (fuel + 3) ⟨ts, anchors, handles⟩).map fun r => (f.node :: r.1, r.2) :=
      fun ts => rfl
    rw [List.flatMap_cons, List.append_assoc, first, ih (by omega)]
    rfl

theorem node_item (i : Item false) {fuel : Nat} (enough : i.more.length + 7 ≤ fuel) :
    node .block fuel ⟨i.tokens.tail ++ rest, anchors, handles⟩ =
      .ok (i.node, ⟨rest, anchors, handles⟩) := by
  obtain ⟨fuel, rfl⟩ : ∃ k, fuel = k + 2 := ⟨fuel - 2, by omega⟩
  have room : (i.first :: i.more).length + 4 ≤ fuel := by
    rw [List.length_cons]
    omega
  have mapping : content .block (fuel + 1) none false
      ⟨.blockMappingStart :: ((i.first :: i.more).flatMap Field.tokens ++ .blockEnd :: rest),
        anchors, handles⟩ = .ok (i.node, ⟨rest, anchors, handles⟩) := by
    unfold content
    exact congrArg (Except.map fun r : List (Node × Node) × Stream => (mapping .map r.1, r.2))
      (blockEntries_fields (i.first :: i.more) room)
  rw [Item.tokens, List.tail_cons, List.cons_append, List.append_assoc, List.singleton_append]
  exact node_of_content (.inr (.inl rfl)) mapping

theorem length_tokens (i : Item false) : i.tokens.length = 4 * i.more.length + 7 := by
  have fields : ∀ fs : List (Field false), (fs.flatMap Field.tokens).length = 4 * fs.length := by
    intro fs
    induction fs with
    | nil => rfl
    | cons f fs ih =>
      rw [List.flatMap_cons, List.length_append, ih, List.length_cons]
      exact Nat.add_comm _ _
  simp only [Item.tokens, List.length_cons, List.length_append, fields, List.length_nil]
  omega

theorem blockItems_item (i : Item false) (fuel : Nat) (ts : List Token) :
    blockItems (fuel + 1) ⟨i.tokens ++ ts, anchors, handles⟩ =
      match node .block fuel ⟨i.tokens.tail ++ ts, anchors, handles⟩ with
      | .error f => .error f
      | .ok (x, s) => (blockItems fuel s).map fun (xs, s) => (x :: xs, s) := rfl

theorem blockItems_items (items : List (Item false)) {fuel : Nat}
    (enough : (items.flatMap Item.tokens).length < fuel) :
    blockItems fuel ⟨items.flatMap Item.tokens ++ .blockEnd :: rest, anchors, handles⟩ =
      .ok (items.map Item.node, ⟨rest, anchors, handles⟩) := by
  induction items generalizing fuel with
  | nil =>
    obtain ⟨fuel, rfl⟩ : ∃ k, fuel = k + 1 := ⟨fuel - 1, by omega⟩
    rfl
  | cons i items ih =>
    have length := length_tokens i
    rw [List.flatMap_cons, List.length_append] at enough
    obtain ⟨fuel, rfl⟩ : ∃ k, fuel = k + 1 := ⟨fuel - 1, by omega⟩
    have room : i.more.length + 7 ≤ fuel := by omega
    rw [List.flatMap_cons, List.append_assoc, blockItems_item, node_item i room]
    dsimp only
    rw [ih (by omega)]
    rfl

/-- The document of a sequence of records. -/
theorem ofTokens_items (items : List (Item false)) :
    ofTokens (.blockSequenceStart :: (items.flatMap Item.tokens ++ [.blockEnd, .streamEnd])) =
      .ok (some (.sequence .seq (items.map Item.node))) := by
  have room : (items.flatMap Item.tokens).length < 3 * (items.flatMap Item.tokens).length + 10 := by
    omega
  apply ofTokens_of_content (.inl rfl)
  simp only [List.length_cons, List.length_append, List.length_nil, Nat.mul_add, content]
  exact congrArg (Except.map fun r : List Node × Stream => (sequence .seq r.1, r.2))
    (blockItems_items items room)

end Node

end ExprLexer.Yaml
