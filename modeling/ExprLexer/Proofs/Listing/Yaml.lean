import ExprLexer.Proofs.Listing.Document

/-!
# YAML listings read back

A YAML listing of tokens loads as the same tokens (`load_yaml_scan`). The reader refuses integers of
more than `Yaml.maxDigits` digits, so lines and columns are bounded.
-/

namespace ExprLexer

namespace Listing

open Yaml

variable {t : Token} {bound : Nat}

theorem names_plain : Names false String.toList := by
  have word : ∀ s : String, (canBePlain s.toList && s.toList.all (IsVisible ·)) = true →
      WritesAs false .str s.toList (Text.Points.ofString s) := by
    intro s plain
    rw [Bool.and_eq_true, List.all_eq_true] at plain
    exact writesAs_plain (fun c member => of_decide_eq_true (plain.2 c member)) plain.1
  refine ⟨fun name member => ?_, fun k => word k.name ?_⟩
  · simp only [List.mem_cons, List.not_mem_nil, or_false] at member
    rcases member with rfl | rfl | rfl | rfl <;> exact ⟨word _ (by decide), by decide⟩
  · cases k <;> decide

theorem toList_yamlItem (t : Token) :
    (yamlItem t).toList = "- kind: ".toList ++ (t.kind.name.toList ++ ("\n  text: ".toList ++
      (writeScalar t.text.toList ++ ("\n  line: ".toList ++ ((toString t.line).toList ++
        ("\n  column: ".toList ++ ((toString t.column).toList ++ ['\n']))))))) := by
  have joined : ∀ (a k b c l d m e : String) (cs : List Char),
      (a ++ k ++ b ++ String.ofList cs ++ c ++ l ++ d ++ m ++ e).toList =
        a.toList ++ (k.toList ++ (b.toList ++ (cs ++ (c.toList ++ (l.toList ++ (d.toList ++
          (m.toList ++ e.toList))))))) := by
    intros
    simp only [String.toList_append, String.toList_ofList, List.append_assoc]
  exact joined _ _ _ _ _ _ _ "\n" _

theorem exists_yamlItem (recordable : t.Recordable bound) (spaceless : ' ' ∉ t.text.toList) :
    ∃ i : Item false, i.text = (yamlItem t).toList ∧
      i.node = recordNode (Text.Points.ofString t.text) t := by
  obtain ⟨i, lines, node⟩ := exists_item recordable names_plain
    (writesAs_writeScalar spaceless)
  rw [List.map_cons, recordLines] at lines
  obtain ⟨first, more⟩ := List.cons.inj lines
  refine ⟨i, ?_, node⟩
  have behind : moreLines i.more = (i.more.map Yaml.Field.line).flatMap fun line =>
      '\n' :: (Input.indentation 2 ++ line) := by
    rw [List.flatMap_map]
    rfl
  rw [toList_yamlItem, Item.text, behind, first, more]
  simp only [List.flatMap_cons, List.flatMap_nil, List.append_assoc, List.cons_append,
    List.nil_append]
  rfl

theorem load_yaml {ts : List Token} (recordable : ∀ t ∈ ts, t.Recordable bound)
    (spaceless : ∀ t ∈ ts, ' ' ∉ t.text.toList) (short : bound < 10 ^ maxDigits) :
    ∃ text, yaml ts = .ok text ∧ load text = .ok ts := by
  refine ⟨_, document_of_recordable recordable (maxDigits_eq ▸ short) _, ?_⟩
  cases ts with
  | nil => rfl
  | cons t ts =>
    obtain ⟨items, texts, nodes⟩ := exists_items fun u member =>
      exists_yamlItem (recordable u member) (spaceless u member)
    cases items with
    | nil => cases nodes
    | cons i items =>
      have read : ofRecords 0 ((t :: ts).map fun u => u.dataAs (Text.Points.ofString u.text)) =
          .ok (t :: ts) :=
        ofRecords_eq (fun u member => Token.ofData_toData (recordable u member)) 0
      have nodes_ : Node.ofTokens (tokens (String.join ((t :: ts).map yamlItem)).toList) =
          .ok (some (.sequence .seq ((t :: ts).map fun u =>
            recordNode (Text.Points.ofString u.text) u))) := by
        have text : (String.join ((t :: ts).map yamlItem)).toList =
            (i :: items).flatMap Item.text := by
          rw [String.toList_join, List.flatMap_map, List.flatMap_def, List.flatMap_def, texts]
        rw [text, tokens_items, ← nodes]
        exact Node.ofTokens_items (i :: items)
      rw [List.isEmpty_cons, if_neg Bool.false_ne_true, load_records recordable short nodes_, read]

end Listing

/-- The YAML listing of a scan can be written and loads as the tokens of the scan. Beyond the bound,
a line or a column could be an integer that the reader refuses. -/
theorem load_yaml_scan (source : String) (short : source.length < 10 ^ Yaml.maxDigits) :
    ∃ text, Listing.yaml (scan source).1 = .ok text ∧
      Listing.load text = .ok (scan source).1 :=
  Listing.load_yaml (scan_recordable source) (scan_spaceless source) short

theorem load_yaml_scan_words :
    "yes = 08 😀".length < 10 ^ Yaml.maxDigits ∧
      ∃ text, Listing.yaml (scan "yes = 08 😀").1 = .ok text ∧
        Listing.load text = .ok (scan "yes = 08 😀").1 := by
  have short : "yes = 08 😀".length < 10 ^ Yaml.maxDigits :=
    Nat.lt_of_lt_of_le (m := 10 ^ 2) (by decide) (Nat.pow_le_pow_right (by decide) (by decide))
  exact ⟨short, load_yaml_scan "yes = 08 😀" short⟩

end ExprLexer
