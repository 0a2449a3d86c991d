import ExprLexer.Proofs.Listing.Record
import ExprLexer.Proofs.Yaml.Document

/-!
# Documents of tokens

The nodes of records and the fields that write them, whatever the style of the document. The text of
a token is spelled by code points, which need not be those of its characters.
-/

namespace ExprLexer.Listing

open Yaml

/-! ### Nodes -/

/-- The entries of a record, with the data that they build. -/
def recordEntries (text : Text.Points) (t : Token) : List (Text.Points × Built) :=
  let numeral (i : Int) : Built :=
    (.scalar .int (Text.Points.ofChars (Nat.toDigits 10 i.toNat)), .int i)
  let string (s : Text.Points) : Built := (.scalar .str s, .text s)
  [(Text.Points.ofString "kind", string (Text.Points.ofString t.kind.name)),
    (Text.Points.ofString "text", string text), (Text.Points.ofString "line", numeral t.line),
    (Text.Points.ofString "column", numeral t.column)]

def recordNode (text : Text.Points) (t : Token) : Node :=
  .mapping .map (namedEntries (recordEntries text t))

variable {t : Token} {ts : List Token} {bound : Nat} {text : Text.Points}

theorem build_record (recordable : t.Recordable bound) (short : bound < 10 ^ maxDigits)
    (fuel depth : Nat) : build (fuel + 2) depth (recordNode text t) = .ok (t.dataAs text) := by
  have numeral : ∀ i : Int, 1 ≤ i ∧ i ≤ bound →
      build (fuel + 1) (depth + 1)
        (.scalar .int (Text.Points.ofChars (Nat.toDigits 10 i.toNat))) = .ok (.int i) := by
    intro i ⟨positive, least⟩
    have least_ : 0 < i.toNat := by omega
    have value := build_numeral (depth + 1) fuel least_ (by omega)
    rwa [Int.toNat_of_nonneg (by omega)] at value
  have built : ∀ e ∈ recordEntries text t, build (fuel + 1) (depth + 1) e.2.1 = .ok e.2.2 := by
    intro e member
    simp only [recordEntries, List.mem_cons, List.not_mem_nil, or_false] at member
    rcases member with rfl | rfl | rfl | rfl
    · exact build_string _ _
    · exact build_string _ _
    · exact numeral t.line recordable.line
    · exact numeral t.column recordable.column
  exact build_mapping depth built

/-- A document of records gives the tokens that their data describe. -/
theorem load_records {document : String} {spelling : Token → Text.Points}
    (recordable : ∀ u ∈ t :: ts, u.Recordable bound) (short : bound < 10 ^ maxDigits)
    (nodes : Node.ofTokens (tokens document.toList) =
      .ok (some (.sequence .seq ((t :: ts).map fun u => recordNode (spelling u) u)))) :
    load document =
      match ofRecords 0 ((t :: ts).map fun u => u.dataAs (spelling u)) with
      | .ok us => .ok us
      | .error e => .error (.display e) := by
  let built (u : Token) : Built := (recordNode (spelling u) u, u.dataAs (spelling u))
  have builds : ∀ fuel, ∀ y ∈ (t :: ts).map built, build (fuel + 2) 1 y.1 = .ok y.2 := by
    intro fuel y member
    obtain ⟨u, inside, rfl⟩ := List.mem_map.mp member
    exact build_record (recordable u inside) short fuel 1
  have value : Yaml.load document.toList =
      .ok (.list ((t :: ts).map fun u => u.dataAs (spelling u))) := by
    have nodes_ : Node.ofTokens (tokens document.toList) =
        .ok (some (.sequence .seq ((built t :: ts.map built).map Prod.fst))) := by
      simpa [Function.comp_def] using nodes
    have read := load_of_build nodes_ (le_height_mapping _ _) builds
    simpa [Function.comp_def] using read
  rw [load, value]
  rfl

/-! ### Fields -/

variable {flow : Bool} {tag : Tag} {write : String → List Char} {w key value : List Char}

theorem exists_field {name : String}
    (writesKey : WritesAs flow .str key (Text.Points.ofString name))
    (short : key.length ≤ 1024) (writes : WritesAs flow tag value text) :
    ∃ f : Yaml.Field flow, f.line = key ++ ':' :: ' ' :: value ∧
      f.node = (.scalar .str (Text.Points.ofString name), .scalar tag text) := by
  obtain ⟨named, writesKey, str⟩ := writesKey
  obtain ⟨plain, writes, tagged⟩ := writes
  refine ⟨⟨key, _, named, value, text, plain, writesKey, writes, short⟩, rfl, ?_⟩
  rw [Field.node, str, tagged]

/-- The lines of a record in which `w` writes the text, and `write` the names. -/
def recordLines (write : String → List Char) (w : List Char) (t : Token) : List (List Char) :=
  [write "kind" ++ ':' :: ' ' :: write t.kind.name, write "text" ++ ':' :: ' ' :: w,
    write "line" ++ ':' :: ' ' :: (toString t.line).toList,
    write "column" ++ ':' :: ' ' :: (toString t.column).toList]

/-- The way to write names can be read back. -/
structure Names (flow : Bool) (write : String → List Char) : Prop where
  key : ∀ name ∈ ["kind", "text", "line", "column"],
    WritesAs flow .str (write name) (Text.Points.ofString name) ∧ (write name).length ≤ 1024
  kind : ∀ k : Kind, WritesAs flow .str (write k.name) (Text.Points.ofString k.name)

theorem exists_item (recordable : t.Recordable bound) (names : Names flow write)
    (writes : WritesAs flow .str w text) :
    ∃ i : Item flow, (i.first :: i.more).map Yaml.Field.line = recordLines write w t ∧
      i.node = recordNode text t := by
  have field : ∀ name ∈ ["kind", "text", "line", "column"], ∀ {tag value text},
      WritesAs flow tag value text → ∃ f : Yaml.Field flow,
        f.line = write name ++ ':' :: ' ' :: value ∧
          f.node = (.scalar .str (Text.Points.ofString name), .scalar tag text) :=
    fun name member _ _ _ => exists_field (names.key name member).1 (names.key name member).2
  obtain ⟨kind, kindLine, kindNode⟩ := field "kind" (by simp) (names.kind t.kind)
  obtain ⟨word, wordLine, wordNode⟩ := field "text" (by simp) writes
  obtain ⟨line, lineLine, lineNode⟩ := field "line" (by simp) (writesAs_toString recordable.line.1)
  obtain ⟨column, columnLine, columnNode⟩ := field "column" (by simp)
    (writesAs_toString recordable.column.1)
  refine ⟨⟨kind, [word, line, column]⟩, ?_, ?_⟩
  · simp only [List.map_cons, List.map_nil, kindLine, wordLine, lineLine, columnLine, recordLines]
  · simp only [Item.node, List.map_cons, List.map_nil, kindNode, wordNode, lineNode, columnNode]
    rfl

theorem exists_items {read : Item flow → List Char} {print : Token → List Char}
    {spelling : Token → Text.Points}
    (each : ∀ u ∈ ts, ∃ i : Item flow, read i = print u ∧ i.node = recordNode (spelling u) u) :
    ∃ items : List (Item flow), items.map read = ts.map print ∧
      items.map Item.node = ts.map fun u => recordNode (spelling u) u := by
  induction ts with
  | nil => exact ⟨[], rfl, rfl⟩
  | cons u us ih =>
    obtain ⟨first, later⟩ := List.forall_mem_cons.mp each
    obtain ⟨i, text, node⟩ := first
    obtain ⟨items, texts, nodes⟩ := ih later
    refine ⟨i :: items, ?_, ?_⟩
    · rw [List.map_cons, List.map_cons, text, texts]
    · rw [List.map_cons, List.map_cons, node, nodes]

end ExprLexer.Listing
