import ExprLexer.Proofs.Json.Reader
import ExprLexer.Proofs.Listing.Record

/-!
# JSON listings under the grammar

The grammar of JSON reads a listing of tokens as the array of their records, whatever their texts
hold (`parse?_json`), so that no two lists of tokens have the same listing. A token has none if its
line or its column is too long to be written (`json_longLine`).
-/

namespace ExprLexer

open Text (maxWritten)

namespace Token

variable {t u : Token}

theorem integral_toJson (t : Token) : t.toJson.Integral := by
  refine .object fun m member => ?_
  simp only [List.mem_cons, List.not_mem_nil, or_false] at member
  rcases member with rfl | rfl | rfl | rfl
  · exact .string t.kind.name
  · exact .string t.text
  · exact .int t.line
  · exact .int t.column

theorem toJson_injective : Function.Injective Token.toJson := by
  rintro ⟨kind, text, line, column⟩ ⟨kind', text', line', column'⟩ same
  simp only [toJson, Json.object.injEq, List.cons.injEq, Prod.mk.injEq, Json.string.injEq,
    Json.int.injEq, true_and, and_true] at same
  obtain ⟨kinds, rfl, rfl, rfl⟩ := same
  obtain rfl := Kind.name_injective kinds
  rfl

end Token

namespace Listing

variable {ts us : List Token}

/-- The array of the records of the tokens. -/
theorem integral_records (ts : List Token) : (Json.array (ts.map Token.toJson)).Integral := by
  refine .array fun x member => ?_
  obtain ⟨t, -, rfl⟩ := List.mem_map.mp member
  exact t.integral_toJson

theorem parse?_listing (ts : List Token) :
    Json.parse? ((Json.array (ts.map Token.toJson)).pretty ++ "\n").toList =
      some (.array (ts.map Token.toJson)) := by
  rw [Json.toList_pretty]
  exact Json.parse?_print (integral_records ts) .pretty (List.forall_mem_singleton.mpr rfl)

theorem ascii_listing (ts : List Token) :
    Json.Ascii ((Json.array (ts.map Token.toJson)).pretty ++ "\n").toList := by
  have inside := Json.print_ascii (integral_records ts) .pretty 0
  rw [Json.toList_pretty]
  exact Json.ascii_append.mpr ⟨inside, by decide⟩

end Listing

/-- Tokens with texts that are not empty, and with lines and columns from one that are not too long
to be written, have a JSON listing. It is in ASCII, the grammar of JSON reads it as the array of
their records, and no other tokens have it. -/
theorem parse?_json {ts : List Token}
    (fine : ∀ t ∈ ts, t.text ≠ "" ∧ 1 ≤ t.line ∧ 1 ≤ t.column)
    (short : ∀ t ∈ ts, t.line.natAbs < 10 ^ maxWritten ∧ t.column.natAbs < 10 ^ maxWritten) :
    ∃ text, Listing.json ts = .ok text ∧ (∀ c ∈ text.toList, c.toNat < 0x80) ∧
      Json.parse? text.toList = some (.array (ts.map fun t =>
        .object [("kind", .string t.kind.name), ("text", .string t.text), ("line", .int t.line),
          ("column", .int t.column)])) ∧
      ∀ us, Listing.json us = .ok text → us = ts := by
  have issues : ∀ t ∈ ts, t.issues = [] := fun t member =>
    Token.issues_eq_nil_iff.mpr (fine t member)
  have shown : ∀ t ∈ ts, t.isShort = true := fun t member => Token.isShort_iff.mpr (short t member)
  refine ⟨_, Listing.json_eq_ok_iff.mpr ⟨issues, shown, rfl⟩, Listing.ascii_listing ts,
    Listing.parse?_listing ts, fun us same => ?_⟩
  obtain ⟨-, -, text⟩ := Listing.json_eq_ok_iff.mp same
  have read := Listing.parse?_listing ts
  rw [text, Listing.parse?_listing us, Option.some.injEq, Json.array.injEq] at read
  exact List.map_injective_iff.mpr Token.toJson_injective read

theorem parse?_json_escapes :
    (∀ t ∈ [(⟨.literal, "\"\\\n\x00\x7f/é", 1, 7⟩ : Token), ⟨.unknown, "😀", 30, 2⟩],
      (t.text ≠ "" ∧ 1 ≤ t.line ∧ 1 ≤ t.column) ∧
        t.line.natAbs < 10 ^ maxWritten ∧ t.column.natAbs < 10 ^ maxWritten) ∧
    ∃ text,
      Listing.json [⟨.literal, "\"\\\n\x00\x7f/é", 1, 7⟩, ⟨.unknown, "😀", 30, 2⟩] = .ok text ∧
      Json.parse? text.toList = some (.array [
        .object [("kind", .string "LITERAL"), ("text", .string "\"\\\n\x00\x7f/é"),
          ("line", .int 1), ("column", .int 7)],
        .object [("kind", .string "UNKNOWN"), ("text", .string "😀"), ("line", .int 30),
          ("column", .int 2)]]) := by
  have small : ∀ t ∈ [(⟨.literal, "\"\\\n\x00\x7f/é", 1, 7⟩ : Token), ⟨.unknown, "😀", 30, 2⟩],
      (t.text ≠ "" ∧ 1 ≤ t.line ∧ 1 ≤ t.column) ∧ t.line.natAbs < 100 ∧ t.column.natAbs < 100 := by
    decide
  have fine := fun t member => (small t member).1
  have short := fun t member => Token.isShort_iff.mp (Token.isShort_of_lt (small t member).2)
  obtain ⟨text, written, -, read, -⟩ := parse?_json fine short
  exact ⟨fun t member => ⟨fine t member, short t member⟩, text, written, read⟩

/-- A line that is too long to be written leaves its token without a listing. -/
theorem json_longLine : ¬ ∀ ts : List Token,
    (∀ t ∈ ts, t.text ≠ "" ∧ 1 ≤ t.line ∧ 1 ≤ t.column) → ∃ text, Listing.json ts = .ok text := by
  intro all
  have positive : (0 : Int) < 10 ^ maxWritten := Int.pow_pos (by decide)
  obtain ⟨text, written⟩ := all [⟨.literal, "x", 10 ^ maxWritten, 1⟩]
    (List.forall_mem_singleton.mpr ⟨by decide, Int.add_one_le_of_lt positive, by decide⟩)
  obtain ⟨-, short, -⟩ := Listing.json_eq_ok_iff.mp written
  have below := (Token.isShort_iff.mp (short _ (List.mem_singleton_self _))).1
  have ten : (10 : Int).natAbs = 10 := rfl
  rw [Int.natAbs_pow, ten] at below
  exact Nat.lt_irrefl _ below

end ExprLexer
