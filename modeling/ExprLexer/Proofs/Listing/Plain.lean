import ExprLexer.Proofs.Listing.Lines
import ExprLexer.Proofs.Listing.Record
import ExprLexer.Proofs.Text.Digits

/-!
# Listings for people read back

Nothing is escaped in a text listing or a table, and the text of a token can look like any part of a
line. But kinds, lines and columns cannot, so a description is read from both of its ends
(`describe_injective`), and a row word by word up to the text (`row_words`). The widths of a table
follow from the first two words of its rows.
-/

namespace ExprLexer

open Text

namespace Kind

theorem name_spaceless (k : Kind) : ' ' ∉ k.name.toList := by cases k <;> decide

theorem name_commaless (k : Kind) : ',' ∉ k.name.toList := by cases k <;> decide

theorem name_unescaped (k : Kind) : '\x1b' ∉ k.name.toList := by cases k <;> decide

theorem name_lineless (k : Kind) : ∀ c ∈ lineEnds, c ∉ k.name.toList := by
  cases k <;> exact forall_mem_lineEnds (by decide)

end Kind

namespace Listing

variable {c : Char} {t u : Token} {ts us : List Token} {w k w' k' : Nat} {coloured : Bool}

theorem not_mem_toString_int (other : c ≠ '-' ∧ c.isDigit = false) (i : Int) :
    c ∉ (toString i).toList := by
  intro member
  rcases mem_toString_int member with rfl | digit
  · exact other.1 rfl
  · exact Bool.false_ne_true (other.2.symm.trans digit)

theorem lineEnds_apart : ∀ c ∈ lineEnds, c ≠ ' ' ∧ c ≠ ':' ∧ c ≠ '-' ∧ c.isDigit = false :=
  forall_mem_lineEnds (by decide)

/-! ### Descriptions -/

theorem toList_describe (t : Token) :
    (describe t).toList =
      "Token Type: ".toList ++ (t.kind.name.toList ++
        ',' :: (" Value: ".toList ++ t.text.toList)) ++ ", Line:".toList ++
        ' ' :: (toString t.line).toList ++ ", Column:".toList ++
        ' ' :: (toString t.column).toList := by
  have value : ", Value: ".toList = ',' :: " Value: ".toList := by decide
  have line : ", Line: ".toList = ", Line:".toList ++ [' '] := by decide
  have column : ", Column: ".toList = ", Column:".toList ++ [' '] := by decide
  unfold describe
  simp only [String.toList_append]
  rw [value, line, column]
  simp only [List.append_assoc, List.cons_append, List.nil_append]

/-- The column and the line are the last words, the kind stands in front of the first comma, and
the text is what is left. -/
theorem describe_injective : Function.Injective describe := by
  rintro ⟨kind, text, line, column⟩ ⟨kind', text', line', column'⟩ same
  have chars := congrArg String.toList same
  have number := not_mem_toString_int (c := ' ') ⟨by decide, rfl⟩
  rw [toList_describe, toList_describe] at chars
  obtain ⟨front, columns⟩ := eq_of_append_cons_last (number _) (number _) chars
  obtain ⟨front, lines⟩ :=
    eq_of_append_cons_last (number _) (number _) (List.append_cancel_right front)
  obtain ⟨kinds, rest⟩ := eq_of_append_cons kind.name_commaless kind'.name_commaless
    (List.append_cancel_left (List.append_cancel_right front))
  have texts := List.append_cancel_left rest
  rw [Token.mk.injEq]
  exact ⟨Kind.name_injective (String.toList_injective kinds), String.toList_injective texts,
    toString_int_injective (String.toList_injective lines),
    toString_int_injective (String.toList_injective columns)⟩

theorem not_mem_describe (ends : c ∈ lineEnds) (text : c ∉ t.text.toList) :
    c ∉ (describe t).toList := by
  have literal : ∀ c ∈ lineEnds, c ∉ "Token Type: ".toList ∧ c ∉ ", Value: ".toList ∧
      c ∉ ", Line: ".toList ∧ c ∉ ", Column: ".toList :=
    forall_mem_lineEnds (by decide)
  obtain ⟨kind, value, line, column⟩ := literal c ends
  have number := not_mem_toString_int (lineEnds_apart c ends).2.2
  unfold describe
  simp only [String.toList_append, List.mem_append, not_or]
  exact ⟨⟨⟨⟨⟨⟨⟨kind, t.kind.name_lineless c ends⟩, value⟩, text⟩, line⟩, number _⟩, column⟩,
    number _⟩

/-! ### Rows -/

theorem toList_place (t : Token) :
    (place t).toList = (toString t.line).toList ++ ':' :: (toString t.column).toList := by
  rw [place, String.toList_append, String.toList_append, List.append_assoc]
  rfl

theorem not_mem_place (other : c ≠ ':' ∧ c ≠ '-' ∧ c.isDigit = false) (t : Token) :
    c ∉ (place t).toList := by
  rw [toList_place, List.mem_append, List.mem_cons, not_or, not_or]
  exact ⟨not_mem_toString_int other.2 _, other.1, not_mem_toString_int other.2 _⟩

theorem place_inj (same : place t = place u) : t.line = u.line ∧ t.column = u.column := by
  have chars := congrArg String.toList same
  have number := not_mem_toString_int (c := ':') ⟨by decide, rfl⟩
  rw [toList_place, toList_place] at chars
  obtain ⟨lines, columns⟩ := eq_of_append_cons (number _) (number _) chars
  exact ⟨toString_int_injective (String.toList_injective lines),
    toString_int_injective (String.toList_injective columns)⟩

/-- What a row shows of a kind. -/
def cell (coloured : Bool) (k : Nat) (kind : Kind) : String :=
  if coloured then paint (colour kind) (padRight k kind.name) else padRight k kind.name

theorem toList_padRight (k : Nat) (s : String) :
    (padRight k s).toList = s.toList ++ List.replicate (k - s.length) ' ' := by
  rw [padRight, spaces, String.toList_append, String.toList_ofList]

theorem toList_row (coloured : Bool) (w k : Nat) (t : Token) :
    (row coloured w k t).toList =
      List.replicate (w - (place t).length) ' ' ++ ((place t).toList ++
        ' ' :: ' ' :: ((cell coloured k t.kind).toList ++ ' ' :: ' ' :: t.text.toList)) := by
  have gap : "  ".toList = [' ', ' '] := by decide
  unfold row
  simp only [padLeft, spaces, String.toList_append, String.toList_ofList]
  rw [gap, cell]
  simp only [List.append_assoc, List.cons_append, List.nil_append]

/-- The padding counted to the text. -/
theorem toList_row_false (w k : Nat) (t : Token) :
    (row false w k t).toList =
      List.replicate (w - (place t).length) ' ' ++ ((place t).toList ++
        ' ' :: ' ' :: (t.kind.name.toList ++
          ' ' :: ' ' :: (List.replicate (k - t.kind.name.length) ' ' ++ t.text.toList))) := by
  have commute : ∀ (n : Nat) (s : List Char),
      List.replicate n ' ' ++ ' ' :: s = ' ' :: (List.replicate n ' ' ++ s) := by
    intro n s
    rw [List.append_cons, ← List.replicate_succ', List.replicate_succ, List.cons_append]
  rw [toList_row, cell, if_neg Bool.false_ne_true, toList_padRight, List.append_assoc, commute,
    commute]

/-- The first two words of a row are the place and the kind, whatever the widths. -/
theorem row_words (same : row false w k t = row false w' k' u) :
    place t = place u ∧ t.kind = u.kind := by
  have chars := congrArg String.toList same
  have spaceless := not_mem_place (c := ' ') ⟨by decide, by decide, rfl⟩
  have some_ : ∀ t : Token, (place t).toList ≠ [] := by
    intro t
    rw [toList_place]
    exact List.append_ne_nil_of_right_ne_nil _ (List.cons_ne_nil _ _)
  rw [toList_row_false, toList_row_false] at chars
  obtain ⟨places, rest⟩ :=
    eq_of_spaces_append ⟨some_ t, some_ u⟩ (spaceless t) (spaceless u) chars
  obtain ⟨kinds, -⟩ := eq_of_append_cons t.kind.name_spaceless u.kind.name_spaceless
    (List.cons.inj rest).2
  exact ⟨String.toList_injective places, Kind.name_injective (String.toList_injective kinds)⟩

theorem row_injective (w k : Nat) : Function.Injective (row false w k) := by
  intro t u same
  have chars := congrArg String.toList same
  obtain ⟨places, kinds⟩ := row_words same
  obtain ⟨lines, columns⟩ := place_inj places
  rw [toList_row, toList_row, places, kinds] at chars
  have texts : t.text.toList = u.text.toList := by
    simpa only [List.append_cancel_left_eq, List.cons.injEq, true_and] using chars
  cases t
  cases u
  rw [Token.mk.injEq]
  exact ⟨kinds, String.toList_injective texts, lines, columns⟩

theorem not_mem_cell (ends : c ∈ lineEnds) (coloured : Bool) (k : Nat) (kind : Kind) :
    c ∉ (cell coloured k kind).toList := by
  have padded : c ∉ (padRight k kind.name).toList := by
    rw [toList_padRight, List.mem_append, not_or]
    exact ⟨kind.name_lineless c ends, fun member =>
      (lineEnds_apart c ends).1 (List.eq_of_mem_replicate member)⟩
  have escapes : ∀ c ∈ lineEnds, c ∉ "\x1b[".toList ∧ c ∉ (toString (colour kind)).toList ∧
      c ∉ "m".toList ∧ c ∉ "\x1b[39m".toList := by
    cases kind <;> exact forall_mem_lineEnds (by decide)
  obtain ⟨start, number, m, default⟩ := escapes c ends
  cases coloured with
  | false => exact padded
  | true =>
    rw [cell, if_pos rfl, paint]
    simp only [String.toList_append, List.mem_append, not_or]
    exact ⟨⟨⟨⟨start, number⟩, m⟩, padded⟩, default⟩

theorem not_mem_row (ends : c ∈ lineEnds) (text : c ∉ t.text.toList) :
    c ∉ (row coloured w k t).toList := by
  obtain ⟨space, place⟩ := lineEnds_apart c ends
  rw [toList_row]
  simp only [List.mem_append, List.mem_cons, not_or]
  exact ⟨fun member => space (List.eq_of_mem_replicate member), not_mem_place place t, space, space,
    not_mem_cell ends coloured k t.kind, space, space, text⟩

/-! ### Whole listings -/

theorem feed_mem_lineEnds : '\n' ∈ lineEnds := by decide

theorem header_line : ∀ c ∈ lineEnds, c ∉ header.toList := forall_mem_lineEnds (by decide)

theorem not_mem_descriptions (ends : c ∈ lineEnds) (plain : ∀ t ∈ ts, c ∉ t.text.toList) :
    ∀ l ∈ header :: ts.map describe, c ∉ l.toList := by
  rw [List.forall_mem_cons, List.forall_mem_map]
  exact ⟨header_line c ends, fun t member => not_mem_describe ends (plain t member)⟩

theorem not_mem_rows (ends : c ∈ lineEnds) (plain : ∀ t ∈ ts, c ∉ t.text.toList) :
    ∀ l ∈ ts.map (row coloured w k), c ∉ l.toList := by
  rw [List.forall_mem_map]
  exact fun t member => not_mem_row ends (plain t member)

theorem text_inj (left : ∀ t ∈ ts, '\n' ∉ t.text.toList) (right : ∀ u ∈ us, '\n' ∉ u.text.toList)
    (same : text ts = text us) : ts = us := by
  have listings : header :: ts.map describe = header :: us.map describe :=
    unlines_inj (not_mem_descriptions feed_mem_lineEnds left)
      (not_mem_descriptions feed_mem_lineEnds right) same
  exact List.map_injective_iff.mpr describe_injective (List.tail_eq_of_cons_eq listings)

theorem rows_words (same : ts.map (row false w k) = us.map (row false w' k')) :
    ts.map place = us.map place ∧ ts.map Token.kind = us.map Token.kind := by
  induction ts generalizing us with
  | nil =>
    obtain rfl := List.map_eq_nil_iff.mp same.symm
    exact ⟨rfl, rfl⟩
  | cons t ts ih =>
    cases us with
    | nil => exact absurd same (List.cons_ne_nil _ _)
    | cons u us =>
      rw [List.map_cons, List.map_cons, List.cons.injEq] at same
      obtain ⟨first, later⟩ := same
      obtain ⟨place, kind⟩ := row_words first
      obtain ⟨places, kinds⟩ := ih later
      simp only [List.map_cons, place, places, kind, kinds, and_self]

theorem table_inj (left : ∀ t ∈ ts, '\n' ∉ t.text.toList) (right : ∀ u ∈ us, '\n' ∉ u.text.toList)
    (same : table false ts = table false us) : ts = us := by
  have rows := unlines_inj (not_mem_rows feed_mem_lineEnds left)
    (not_mem_rows feed_mem_lineEnds right) same
  obtain ⟨places, kinds⟩ := rows_words rows
  have names : ts.map (·.kind.name) = us.map (·.kind.name) := by
    have named := congrArg (List.map Kind.name) kinds
    rwa [List.map_map, List.map_map] at named
  rw [places, names] at rows
  exact List.map_injective_iff.mpr (row_injective _ _) rows

theorem lines_text (plain : ∀ c ∈ lineEnds, ∀ t ∈ ts, c ∉ t.text.toList) :
    lines (text ts).toList = header.toList :: ts.map fun t => (describe t).toList := by
  rw [text, lines_unlines fun c ends => not_mem_descriptions ends (plain c ends), List.map_cons,
    List.map_map]
  rfl

theorem lines_table (plain : ∀ c ∈ lineEnds, ∀ t ∈ ts, c ∉ t.text.toList) (coloured : Bool) :
    lines (table coloured ts).toList = ts.map fun t =>
      (row coloured (width (ts.map place)) (width (ts.map (·.kind.name))) t).toList := by
  rw [table, lines_unlines fun c ends => not_mem_rows ends (plain c ends), List.map_map]
  rfl

theorem scan_lineless {source : String} :
    ∀ c ∈ lineEnds, ∀ t ∈ (scan source).1, c ∉ t.text.toList := by
  intro c ends t member inside
  have blank := isBlank_of_mem_lineEnds c ends
  rw [scan_unblank member c inside] at blank
  cases blank

end Listing

/-! ### Rendering -/

namespace Listing

/-- The formats for people. -/
def plainFormats : List Format := [.text, .table]

/-- The listing in one of these formats that no length of an integer keeps from being written. -/
def plainLayout (format : Format) (coloured : Bool) (tokens : List Token) : String :=
  if format = .text then text tokens else table coloured tokens

variable {format : Format} {listing : String}

theorem render_plain (plain : format ∈ plainFormats) (coloured : Bool) (ts : List Token) :
    render format coloured ts = written ts (plainLayout format coloured ts) := by
  simp only [plainFormats, List.mem_cons, List.not_mem_nil, or_false] at plain
  rcases plain with rfl | rfl <;> rfl

theorem plainLayout_inj (left : ∀ t ∈ ts, '\n' ∉ t.text.toList)
    (right : ∀ u ∈ us, '\n' ∉ u.text.toList)
    (same : plainLayout format false ts = plainLayout format false us) : ts = us := by
  unfold plainLayout at same
  split at same
  · exact text_inj left right same
  · exact table_inj left right same

/-- Tokens whose texts hold no line feed are told by their listing. -/
theorem render_inj (plain : format ∈ plainFormats) (left : ∀ t ∈ ts, '\n' ∉ t.text.toList)
    (right : ∀ u ∈ us, '\n' ∉ u.text.toList) (first : render format false ts = .ok listing)
    (second : render format false us = .ok listing) : ts = us := by
  rw [render_plain plain, written_eq_ok_iff] at first second
  exact plainLayout_inj left right (first.2.symm.trans second.2)

theorem render_plain_eq_error_iff (plain : format ∈ plainFormats) {e : Escape} :
    render format coloured ts = .error e ↔ (∃ t ∈ ts, 10 ^ maxWritten ≤ t.line.natAbs ∨
      10 ^ maxWritten ≤ t.column.natAbs) ∧ e = .longInteger := by
  rw [render_plain plain, written_eq_error_iff]
  refine and_congr_left fun _ => exists_congr fun t => and_congr_right fun _ => ?_
  rw [Bool.eq_false_iff, Ne, Token.isShort_iff, not_and_or, Nat.not_lt, Nat.not_lt]

end Listing

/-- Tokens whose texts hold no line feed are told by their text listing, and by their table, also if
their texts are empty or hold spaces, and whatever their lines and columns are. There is a listing
unless one of these has too many digits. Sources with the same text listing or the same table have
the same tokens. The listings of a scan have one line per token, in the order of the tokens, and
none of the characters in them ends a line elsewhere. -/
theorem plain_listings_determine_tokens :
    (∀ format ∈ Listing.plainFormats, ∀ ts us listing,
      (∀ t ∈ ts, '\n' ∉ t.text.toList) → (∀ u ∈ us, '\n' ∉ u.text.toList) →
      Listing.render format false ts = .ok listing →
      Listing.render format false us = .ok listing → ts = us) ∧
    (∀ format ∈ Listing.plainFormats, ∀ coloured ts e,
      Listing.render format coloured ts = .error e ↔
        (∃ t ∈ ts, 10 ^ maxWritten ≤ t.line.natAbs ∨ 10 ^ maxWritten ≤ t.column.natAbs) ∧
          e = .longInteger) ∧
    (∀ format ∈ Listing.plainFormats, ∀ source other listing,
      Listing.render format false (scan source).1 = .ok listing →
      Listing.render format false (scan other).1 = .ok listing →
      (scan source).1 = (scan other).1) ∧
    ∀ source : String,
      (∀ coloured listing, Listing.render .text coloured (scan source).1 = .ok listing →
        lines listing.toList =
          Listing.header.toList :: (scan source).1.map fun t => (Listing.describe t).toList) ∧
      ∃ w k, ∀ coloured listing, Listing.render .table coloured (scan source).1 = .ok listing →
        lines listing.toList =
          (scan source).1.map fun t => (Listing.row coloured w k t).toList := by
  have plain : ∀ source : String, ∀ t ∈ (scan source).1, '\n' ∉ t.text.toList :=
    fun source => Listing.scan_lineless '\n' Listing.feed_mem_lineEnds
  refine ⟨fun format member ts us listing => Listing.render_inj member,
    fun format member coloured ts e => Listing.render_plain_eq_error_iff member,
    fun format member source other listing => Listing.render_inj member (plain _) (plain _),
    fun source => ⟨fun coloured listing given => ?_,
      Listing.width ((scan source).1.map Listing.place),
      Listing.width ((scan source).1.map (·.kind.name)), fun coloured listing given => ?_⟩⟩
  · obtain ⟨-, rfl⟩ := Listing.written_eq_ok_iff.mp given
    exact Listing.lines_text Listing.scan_lineless
  · obtain ⟨-, rfl⟩ := Listing.written_eq_ok_iff.mp given
    exact Listing.lines_table Listing.scan_lineless coloured

theorem plain_listings_determine_tokens_imitation :
    (∃ listing,
      Listing.render .text false [⟨.unknown, "x, Line: 1, Column: 2", 3, 4⟩] = .ok listing ∧
      Listing.render .text false [⟨.unknown, "x", 1, 2⟩] ≠ .ok listing) ∧
    ∃ listing, Listing.render .table false [⟨.keyword, "  x", 1, 1⟩] = .ok listing ∧
      Listing.render .table false [⟨.keyword, "x", 1, 1⟩] ≠ .ok listing := by
  obtain ⟨determined, -⟩ := plain_listings_determine_tokens
  have plain : ∀ u ∈ [(⟨.unknown, "x, Line: 1, Column: 2", 3, 4⟩ : Token), ⟨.unknown, "x", 1, 2⟩,
      ⟨.keyword, "  x", 1, 1⟩, ⟨.keyword, "x", 1, 1⟩], '\n' ∉ u.text.toList := by
    decide
  simp only [List.forall_mem_cons] at plain
  obtain ⟨imitation, short, wide, narrow, -⟩ := plain
  have given : ∀ t : Token, t.line.natAbs < 100 ∧ t.column.natAbs < 100 → ∀ listing,
      Listing.written [t] listing = .ok listing := fun t small =>
    Listing.written_of_isShort (List.forall_mem_singleton.mpr (Token.isShort_of_lt small))
  refine ⟨⟨_, given _ (by decide) _, fun same => ?_⟩, ⟨_, given _ (by decide) _, fun same => ?_⟩⟩
  · have tokens := determined .text (by decide) _ _ _ (List.forall_mem_singleton.mpr imitation)
      (List.forall_mem_singleton.mpr short) (given _ (by decide) _) same
    exact absurd tokens (by decide)
  · have tokens := determined .table (by decide) _ _ _ (List.forall_mem_singleton.mpr wide)
      (List.forall_mem_singleton.mpr narrow) (given _ (by decide) _) same
    exact absurd tokens (by decide)

end ExprLexer
