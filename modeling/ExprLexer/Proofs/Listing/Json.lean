import ExprLexer.Proofs.Json.Layout
import ExprLexer.Proofs.Json.Printer
import ExprLexer.Proofs.Listing.Document

/-!
# JSON listings read back

A JSON listing of tokens loads as the same tokens if their texts stay in the first plane. A
character beyond it is written as two escaped surrogates, which YAML does not join, so that loading
fails at the first token with such a character (`load_json_scan`). So it goes for whatever tokens
can be written at all (`load_json_tokens`).
-/

namespace ExprLexer

namespace Listing

open Yaml Json Text

variable {t : Token} {ts : List Token} {bound : Nat}

theorem names_json : Names true fun s => stringText s.toList := by
  have word : ∀ s : String, FirstPlane s.toList →
      WritesAs true .str (stringText s.toList) (Points.ofString s) := by
    intro s plane
    have writes : WritesAs true .str _ _ := writesAs_stringText s.toList
    rwa [spelled_eq plane] at writes
  refine ⟨fun name member => ?_, fun k => word k.name ?_⟩
  · simp only [List.mem_cons, List.not_mem_nil, or_false] at member
    rcases member with rfl | rfl | rfl | rfl <;> exact ⟨word _ (by decide), by decide⟩
  · cases k <;> decide

theorem exists_jsonItem (recordable : t.Recordable bound) :
    ∃ i : Item true, i.flowText = print .pretty 1 t.toJson ∧
      i.node = recordNode (spelled t.text.toList) t := by
  obtain ⟨i, lines, node⟩ := exists_item recordable names_json (writesAs_stringText t.text.toList)
  rw [List.map_cons, recordLines] at lines
  obtain ⟨first, more⟩ := List.cons.inj lines
  refine ⟨i, ?_, node⟩
  rw [Item.flowText, first, more]
  exact (bracket_pretty true 1 _ _).symm

/-- A JSON listing loads as its records with their texts in UTF-16 units. -/
theorem load_json (recordable : ∀ t ∈ ts, t.Recordable bound) (short : bound < 10 ^ maxDigits) :
    ∃ text, json ts = .ok text ∧
      load text =
        match ofRecords 0 (ts.map fun t => t.dataAs (spelled t.text.toList)) with
        | .ok us => .ok us
        | .error e => .error (.display e) := by
  refine ⟨_, document_of_recordable recordable (maxDigits_eq ▸ short) _, ?_⟩
  cases ts with
  | nil => rfl
  | cons t ts =>
    obtain ⟨items, texts, nodes⟩ := exists_items fun u member =>
      exists_jsonItem (recordable u member)
    cases items with
    | nil => cases nodes
    | cons i items =>
      apply load_records recordable short
      rw [List.map_cons, List.map_cons] at texts
      obtain ⟨first, later⟩ := List.cons.inj texts
      have text : print .pretty 0 (.array ((t :: ts).map Token.toJson)) =
          bracketed false 2 0 i.flowText (items.map Item.flowText) := by
        rw [print, printItems_eq_map, List.map_map, List.map_cons, first, later]
        exact bracket_pretty false 0 _ _
      rw [toList_pretty, text, tokens_flowItems, ← nodes]
      exact Node.ofTokens_flowItems i items

/-- Tokens with places of few digits cannot be written exactly when one of them has an issue. -/
theorem json_eq_error_iff (short : ∀ t ∈ ts, t.isShort = true) :
    (∃ e, json ts = .error e) ↔ ∃ t ∈ ts, t.issues ≠ [] := by
  refine ⟨fun ⟨e, failed⟩ => ?_, fun ⟨t, member, issue⟩ => ?_⟩
  · by_contra none_
    have fine : ∀ t ∈ ts, t.issues = [] := by
      intro t member
      by_contra issue
      exact none_ ⟨t, member, issue⟩
    cases failed.symm.trans (json_eq_ok_iff.mpr ⟨fine, short, rfl⟩)
  · obtain ⟨f, refused⟩ := exists_writable_eq_error member issue
    exact ⟨.record f, by rw [json, document, refused]⟩

theorem exists_record_of_json_eq_error (short : ∀ t ∈ ts, t.isShort = true) {e : Escape}
    (failed : json ts = .error e) : ∃ f, e = .record f := by
  unfold json document at failed
  split at failed
  · next f _ => exact ⟨f, (Except.error.inj failed).symm⟩
  · next us kept =>
    obtain ⟨rfl, -⟩ := writable_eq_ok_iff.mp kept
    cases failed.symm.trans (written_of_isShort short _)

/-! ### Texts in UTF-16 units -/

theorem ofData_inside (recordable : t.Recordable bound) (plane : FirstPlane t.text.toList) :
    Token.ofData (t.dataAs (spelled t.text.toList)) = .ok t := by
  rw [spelled_eq plane]
  exact Token.ofData_toData recordable

/-- The failure at a record whose text is spelled in surrogates. -/
def surrogates (t : Token) : Schema.Failure :=
  ⟨Token.schema, [⟨some "text", .notUnicode, .text (spelled t.text.toList)⟩]⟩

theorem ofData_beyond (recordable : t.Recordable bound) (beyond : ¬ FirstPlane t.text.toList) :
    Token.ofData (t.dataAs (spelled t.text.toList)) = .error (surrogates t) := by
  have none_ : Points.toString? (spelled t.text.toList) = none := by
    rw [Points.toString?, toChars?_spelled_eq_none beyond, Option.map_none]
  exact Token.ofData_surrogates recordable none_

/-- The records in front of `t` give their tokens, so `t` is the first to be refused. -/
theorem ofRecords_beyond {before after : List Token}
    (recordable : ∀ u ∈ before ++ t :: after, u.Recordable bound)
    (inside : ∀ u ∈ before, FirstPlane u.text.toList) (beyond : ¬ FirstPlane t.text.toList) :
    ofRecords 0 ((before ++ t :: after).map fun u => u.dataAs (spelled u.text.toList)) =
      .error (.record before.length (surrogates t)) := by
  have refused := ofData_beyond (recordable t (by simp)) beyond
  rw [List.map_append, ofRecords_append fun u member =>
    ofData_inside (recordable u (List.mem_append_left _ member)) (inside u member),
    List.map_cons, ofRecords, refused, Nat.zero_add]
  rfl

/-- Either all texts stay in the first plane, or there is a first that does not. -/
theorem inside_or_beyond (ts : List Token) :
    (∀ t ∈ ts, FirstPlane t.text.toList) ∨ ∃ before t after, ts = before ++ t :: after ∧
      (∀ u ∈ before, FirstPlane u.text.toList) ∧ ¬ FirstPlane t.text.toList := by
  cases found : ts.find? fun t => ¬ FirstPlane t.text.toList with
  | none =>
    refine .inl fun t member => ?_
    simpa using List.find?_eq_none.mp found t member
  | some t =>
    obtain ⟨beyond, before, after, parts, inside⟩ := List.find?_eq_some_iff_append.mp found
    refine .inr ⟨before, t, after, parts, fun u member => ?_, of_decide_eq_true beyond⟩
    simpa using inside u member

end Listing

/-- The JSON listing of a scan can be written. It loads as the tokens of the scan if all their texts
stay in the first plane, and else the first text that does not is refused. -/
theorem load_json_scan (source : String) (short : source.length < 10 ^ Yaml.maxDigits) :
    ∃ text, Listing.json (scan source).1 = .ok text ∧
      ((∀ t ∈ (scan source).1, Text.FirstPlane t.text.toList) →
        Listing.load text = .ok (scan source).1) ∧
      ∀ before t after, (scan source).1 = before ++ t :: after →
        (∀ u ∈ before, Text.FirstPlane u.text.toList) → ¬ Text.FirstPlane t.text.toList →
        Listing.load text = .error (.display (.record before.length
          ⟨Token.schema, [⟨some "text", .notUnicode, .text (Text.spelled t.text.toList)⟩]⟩)) := by
  have recordable := scan_recordable source
  obtain ⟨text, written, read⟩ := Listing.load_json recordable short
  refine ⟨text, written, fun inside => ?_, fun before t after parts inside beyond => ?_⟩
  · rw [read, Listing.ofRecords_eq fun t member =>
      Listing.ofData_inside (recordable t member) (inside t member)]
  · rw [parts] at recordable
    rw [read, parts, Listing.ofRecords_beyond recordable inside beyond]
    rfl

theorem load_json_scan_emoji :
    "😀".length < 10 ^ Yaml.maxDigits ∧ ∃ text, Listing.json (scan "😀").1 = .ok text ∧
      Listing.load text = .error (.display (.record 0
        ⟨Token.schema, [⟨some "text", .notUnicode, .text [0xD83D, 0xDE00]⟩]⟩)) := by
  have short : "😀".length < 10 ^ Yaml.maxDigits :=
    Nat.lt_of_lt_of_le (m := 10 ^ 2) (by decide) (Nat.pow_le_pow_right (by decide) (by decide))
  have tokens : (scan "😀").1 = [⟨.unknown, "😀", 1, 1⟩] :=
    congrArg Prod.fst (Tiling.scan_unknown (.unknown rfl rfl (by decide) (by decide)))
  obtain ⟨text, written, -, refused⟩ := load_json_scan "😀" short
  exact ⟨short, text, written, refused [] _ [] tokens nofun (by decide)⟩

/-- Tokens can be written as JSON exactly when no text is empty and no line or column below one;
else a record is refused. Their listing loads as the same tokens if all texts stay in the first
plane, and else the first text that does not is refused. -/
theorem load_json_tokens {ts : List Token}
    (short : ∀ t ∈ ts, t.line.natAbs < 10 ^ Yaml.maxDigits ∧
      t.column.natAbs < 10 ^ Yaml.maxDigits) :
    ((∃ e, Listing.json ts = .error e) ↔ ∃ t ∈ ts, t.text = "" ∨ t.line < 1 ∨ t.column < 1) ∧
      (∀ e, Listing.json ts = .error e → ∃ f, e = .record f) ∧
      ∀ text, Listing.json ts = .ok text →
        ((∀ t ∈ ts, Text.FirstPlane t.text.toList) ∧ Listing.load text = .ok ts) ∨
          ∃ before t after, ts = before ++ t :: after ∧
            (∀ u ∈ before, Text.FirstPlane u.text.toList) ∧ ¬ Text.FirstPlane t.text.toList ∧
            Listing.load text = .error (.display (.record before.length ⟨Token.schema,
              [⟨some "text", .notUnicode, .text (Text.spelled t.text.toList)⟩]⟩)) := by
  have shown : ∀ t ∈ ts, t.isShort = true := fun t member =>
    Token.isShort_iff.mpr (Listing.maxDigits_eq ▸ short t member)
  refine ⟨?_, fun e => Listing.exists_record_of_json_eq_error shown, fun text written => ?_⟩
  · rw [Listing.json_eq_error_iff shown]
    refine exists_congr fun t => and_congr_right fun _ => ?_
    rw [Ne, Token.issues_eq_nil_iff, not_and_or, not_and_or, not_not, Int.not_le, Int.not_le]
  have recordable : ∀ t ∈ ts, t.Recordable (10 ^ Yaml.maxDigits - 1) := by
    intro t member
    have fine : t.issues = [] := by
      by_contra issue
      obtain ⟨e, failed⟩ := (Listing.json_eq_error_iff shown).mpr ⟨t, member, issue⟩
      cases written.symm.trans failed
    obtain ⟨some_, line, column⟩ := Token.issues_eq_nil_iff.mp fine
    obtain ⟨shortLine, shortColumn⟩ := short t member
    generalize 10 ^ Yaml.maxDigits = limit at shortLine shortColumn ⊢
    exact ⟨some_, by omega, by omega⟩
  obtain ⟨same, written_, read⟩ := Listing.load_json recordable
    (Nat.sub_one_lt (Nat.ne_of_gt (Nat.pow_pos (by decide))))
  cases written.symm.trans written_
  rcases Listing.inside_or_beyond ts with inside | ⟨before, t, after, rfl, inside, beyond⟩
  · refine .inl ⟨inside, ?_⟩
    rw [read, Listing.ofRecords_eq fun t member =>
      Listing.ofData_inside (recordable t member) (inside t member)]
  · refine .inr ⟨before, t, after, rfl, inside, beyond, ?_⟩
    rw [read, Listing.ofRecords_beyond recordable inside beyond]
    rfl

theorem load_json_tokens_mixed :
    (∀ t ∈ [(⟨.literal, "\t a  \"b\\\n\x00 ", 1, 7⟩ : Token), ⟨.unknown, " 😀", 3, 20⟩],
      t.line.natAbs < 10 ^ Yaml.maxDigits ∧ t.column.natAbs < 10 ^ Yaml.maxDigits) ∧
    ∃ text, Listing.json [⟨.literal, "\t a  \"b\\\n\x00 ", 1, 7⟩, ⟨.unknown, " 😀", 3, 20⟩] =
        .ok text ∧
      Listing.load text = .error (.display (.record 1
        ⟨Token.schema, [⟨some "text", .notUnicode, .text [0x20, 0xD83D, 0xDE00]⟩]⟩)) := by
  refine (fun short => ⟨short, ?_⟩) ?_
  · intro t member
    exact Listing.maxDigits_eq ▸ Token.isShort_iff.mp (Token.isShort_of_lt (by revert t; decide))
  · obtain ⟨-, -, read⟩ := load_json_tokens short
    have shown := fun t member => Token.isShort_iff.mpr (Listing.maxDigits_eq ▸ short t member)
    have written := Listing.json_eq_ok_iff.mpr ⟨by decide, shown, rfl⟩
    refine ⟨_, written, ?_⟩
    rcases read _ written with ⟨inside, -⟩ | ⟨before, t, after, parts, inside, beyond, refused⟩
    · exact absurd inside (by decide)
    -- The first text stays in the plane, so that the second one is the first beyond it.
    rcases before with - | ⟨u, before⟩
    · obtain ⟨rfl, -⟩ := List.cons.inj parts
      exact absurd beyond (by decide)
    · obtain ⟨-, parts⟩ := List.cons.inj parts
      cases before with
      | nil =>
        obtain ⟨rfl, -⟩ := List.cons.inj parts
        exact refused
      | cons v before => cases before <;> cases (List.cons.inj parts).2

end ExprLexer
