import ExprLexer.Proofs.Listing.Plain
import ExprLexer.Proofs.Text.Escapes

/-!
# The layout of tables

The widths of a table are those of its longest place and its longest kind, so that its rows are
aligned (`aligned_row`) and no smaller widths would do. Colours go around the padded kinds. A text
with an escape character holds nothing else, so the colours are the only escape sequences, and
without them the rows are the plain ones (`dropEscapes_rows`).
-/

namespace ExprLexer

open Text

namespace Listing

variable {t : Token} {ts : List Token} {w k : Nat} {digit : Char → Bool}

/-! ### Widths -/

theorem width_eq (cells : List String) : width cells = (cells.map String.length).max?.getD 0 := by
  rw [width, ← List.foldl_map (f := String.length) (g := max), List.foldl_max]
  exact Nat.zero_max _

/-- A column is as wide as its longest cell. -/
theorem width_spec {cells : List String} (some_ : cells ≠ []) :
    (∃ s ∈ cells, s.length = width cells) ∧ ∀ s ∈ cells, s.length ≤ width cells := by
  rw [width_eq]
  cases found : (cells.map String.length).max? with
  | none => exact absurd (List.map_eq_nil_iff.mp (List.max?_eq_none_iff.mp found)) some_
  | some n =>
    obtain ⟨member, most⟩ := List.max?_eq_some_iff.mp found
    exact ⟨List.mem_map.mp member, List.forall_mem_map.mp most⟩

/-- The cells of the token fit into the columns. -/
structure Narrow (w k : Nat) (t : Token) : Prop where
  place : (place t).length ≤ w
  kind : t.kind.name.length ≤ k

/-! ### Columns -/

/-- A line of two columns and a text. -/
def inColumns (place kind text : List Char) : List Char :=
  place ++ ' ' :: ' ' :: (kind ++ ' ' :: ' ' :: text)

section Columns

variable {place kind text : List Char}

theorem take_place (wide : place.length = w) : (inColumns place kind text).take w = place :=
  List.take_left' wide

theorem drop_place (wide : place.length = w) :
    (inColumns place kind text).drop w = ' ' :: ' ' :: (kind ++ ' ' :: ' ' :: text) :=
  List.drop_left' wide

theorem take_placeGap (wide : place.length = w) :
    (inColumns place kind text).take (w + 2) = place ++ [' ', ' '] := by
  rw [List.take_add, take_place wide, drop_place wide]
  rfl

theorem drop_placeGap (wide : place.length = w) :
    (inColumns place kind text).drop (w + 2) = kind ++ ' ' :: ' ' :: text := by
  rw [← List.drop_drop, drop_place wide]
  rfl

theorem drop_kind (wide : place.length = w ∧ kind.length = k) :
    (inColumns place kind text).drop (w + 2 + k) = ' ' :: ' ' :: text := by
  rw [← List.drop_drop, drop_placeGap wide.1, List.drop_left' wide.2]

theorem drop_kindGap (wide : place.length = w ∧ kind.length = k) :
    (inColumns place kind text).drop (w + k + 4) = text := by
  have after : w + k + 4 = w + 2 + k + 2 := by omega
  rw [after, ← List.drop_drop, drop_kind wide]
  rfl

end Columns

/-! ### Rows -/

/-- The layout of a plain row: the place ends at `w`, the kind starts two characters behind it, and
the text two characters behind the column of the kind. All other characters are spaces. -/
structure Aligned (w k : Nat) (t : Token) (line : List Char) : Prop where
  place : ∃ left, left + (place t).length = w ∧
    line.take w = List.replicate left ' ' ++ (Listing.place t).toList
  placeGap : (line.drop w).take 2 = [' ', ' ']
  kind : ∃ right, t.kind.name.length + right = k ∧
    (line.drop (w + 2)).take k = t.kind.name.toList ++ List.replicate right ' '
  kindGap : (line.drop (w + 2 + k)).take 2 = [' ', ' ']
  text : line.drop (w + k + 4) = t.text.toList

/-- The line with the column of the kind painted. -/
def painted (w k : Nat) (kind : Kind) (line : List Char) : List Char :=
  line.take (w + 2) ++
    (paint (colour kind) (String.ofList ((line.drop (w + 2)).take k))).toList ++
    line.drop (w + 2 + k)

theorem Aligned.narrow {line : List Char} (aligned : Aligned w k t line) : Narrow w k t := by
  obtain ⟨left, place, -⟩ := aligned.place
  obtain ⟨right, kind, -⟩ := aligned.kind
  exact ⟨by omega, by omega⟩

theorem toList_row_inColumns (coloured : Bool) (w k : Nat) (t : Token) :
    (row coloured w k t).toList =
      inColumns (List.replicate (w - (place t).length) ' ' ++ (place t).toList)
        (cell coloured k t.kind).toList t.text.toList := by
  rw [toList_row, inColumns, List.append_assoc]

theorem length_columns (narrow : Narrow w k t) :
    (List.replicate (w - (place t).length) ' ' ++ (place t).toList).length = w ∧
      (cell false k t.kind).toList.length = k := by
  obtain ⟨place, kind⟩ := narrow
  rw [cell, if_neg Bool.false_ne_true, toList_padRight]
  simp only [List.length_append, List.length_replicate, String.length_toList]
  omega

theorem aligned_row (narrow : Narrow w k t) : Aligned w k t (row false w k t).toList := by
  have lengths := length_columns narrow
  obtain ⟨place, kind⟩ := narrow
  rw [toList_row_inColumns]
  refine ⟨⟨_, Nat.sub_add_cancel place, take_place lengths.1⟩, ?_,
    ⟨k - t.kind.name.length, Nat.add_sub_cancel' kind, ?_⟩, ?_, drop_kindGap lengths⟩
  · rw [drop_place lengths.1]
    rfl
  · rw [drop_placeGap lengths.1, List.take_left' lengths.2, cell, if_neg Bool.false_ne_true,
      toList_padRight]
  · rw [drop_kind lengths]
    rfl

theorem painted_row (narrow : Narrow w k t) :
    (row true w k t).toList = painted w k t.kind (row false w k t).toList := by
  have lengths := length_columns narrow
  rw [toList_row_inColumns, toList_row_inColumns, painted, take_placeGap lengths.1,
    drop_placeGap lengths.1, List.take_left' lengths.2, drop_kind lengths, String.ofList_toList,
    inColumns]
  simp only [List.append_assoc, List.cons_append, List.nil_append]
  rfl

/-! ### Colours -/

/-- The text holds no escape character, unless it is one. -/
def EscapeAlone (cs : List Char) : Prop := cs = ['\x1b'] ∨ '\x1b' ∉ cs

theorem escapeAlone_of_mem_scan {source : String} (member : t ∈ (scan source).1) :
    EscapeAlone t.text.toList := by
  obtain ⟨-, l, fits, -, spelled, -⟩ := exists_lexeme_of_mem_scan member
  rw [spelled, EscapeAlone]
  rcases fits.single_or_chars with ⟨c, text⟩ | chars
  · rw [text, List.singleton_inj, List.mem_singleton, eq_comm]
    exact em _
  · exact .inr fun escape => absurd (chars _ escape) (by decide)

theorem dropEscapes_text {cs : List Char} (alone : EscapeAlone cs) (rest : List Char) :
    dropEscapes digit (cs ++ '\n' :: rest) = cs ++ '\n' :: dropEscapes digit rest := by
  have feed : dropEscapes digit ('\n' :: rest) = '\n' :: dropEscapes digit rest :=
    dropEscapes_cons (by decide) rest
  rcases alone with rfl | plain
  · rw [List.singleton_append, dropEscapes_alone (by decide), feed]
    rfl
  · rw [dropEscapes_append plain, feed]

section Colours

variable (digits : ∀ c, c.isDigit = true → digit c = true) (stop : digit 'm' = false)

include digits stop

theorem dropEscapes_paint {s : String} (plain : '\x1b' ∉ s.toList) (colour : Nat)
    (rest : List Char) :
    dropEscapes digit ((paint colour s).toList ++ rest) = s.toList ++ dropEscapes digit rest := by
  have start : "\x1b[".toList = ['\x1b', '['] := by decide
  have stops : "m".toList = ['m'] := by decide
  have default : "\x1b[39m".toList = '\x1b' :: '[' :: (Nat.toDigits 10 39 ++ ['m']) := by decide
  have number : (toString colour).toList = Nat.toDigits 10 colour := Nat.toList_repr
  have code : ∀ (n : Nat) (rest : List Char),
      dropEscapes digit ('\x1b' :: '[' :: (Nat.toDigits 10 n ++ 'm' :: rest)) =
        dropEscapes digit rest := fun n rest =>
    dropEscapes_escape Nat.toDigits_ne_nil (fun d member => digits d (isDigit_toDigits n d member))
      stop rest
  unfold paint
  simp only [String.toList_append]
  rw [start, stops, default, number]
  simp only [List.append_assoc, List.cons_append, List.nil_append]
  rw [code, dropEscapes_append plain, code]

theorem dropEscapes_row (alone : EscapeAlone t.text.toList) (w k : Nat) (rest : List Char) :
    dropEscapes digit ((row true w k t).toList ++ '\n' :: rest) =
      (row false w k t).toList ++ '\n' :: dropEscapes digit rest := by
  have spaces : ∀ n, '\x1b' ∉ List.replicate n ' ' := fun n escape =>
    absurd (List.eq_of_mem_replicate escape) (by decide)
  have place : '\x1b' ∉ (place t).toList := not_mem_place ⟨by decide, by decide, rfl⟩ t
  have kind : '\x1b' ∉ (padRight k t.kind.name).toList := by
    rw [toList_padRight, List.mem_append, not_or]
    exact ⟨t.kind.name_unescaped, spaces _⟩
  have twoSpaces : '\x1b' ∉ [' ', ' '] := by decide
  have gap : ∀ cs, dropEscapes digit (' ' :: ' ' :: cs) = ' ' :: ' ' :: dropEscapes digit cs :=
    dropEscapes_append twoSpaces
  rw [toList_row, toList_row]
  simp only [List.append_assoc, List.cons_append]
  rw [dropEscapes_append (spaces _), dropEscapes_append place, gap, cell, if_pos rfl,
    dropEscapes_paint digits stop kind, gap, dropEscapes_text alone]
  rfl

theorem dropEscapes_rows (alone : ∀ t ∈ ts, EscapeAlone t.text.toList) (w k : Nat) :
    dropEscapes digit (unlines (ts.map (row true w k))).toList =
      (unlines (ts.map (row false w k))).toList := by
  induction ts with
  | nil => exact dropEscapes_nil digit
  | cons t ts ih =>
    obtain ⟨first, later⟩ := List.forall_mem_cons.mp alone
    rw [List.map_cons, List.map_cons, toList_unlines_cons, toList_unlines_cons,
      dropEscapes_row digits stop first, ih later]

end Colours

/-! ### Tables -/

theorem narrow_of_mem (member : t ∈ ts) :
    Narrow (width (ts.map place)) (width (ts.map (·.kind.name))) t := by
  have fits : ∀ cell : Token → String, (cell t).length ≤ width (ts.map cell) := fun cell =>
    (width_spec (List.ne_nil_of_mem (List.mem_map_of_mem member))).2 _ (List.mem_map_of_mem member)
  exact ⟨fits place, fits (·.kind.name)⟩

theorem exists_length_eq_width (some_ : ts ≠ []) (cell : Token → String) :
    ∃ t ∈ ts, (cell t).length = width (ts.map cell) := by
  obtain ⟨s, member, longest⟩ := (width_spec (mt List.map_eq_nil_iff.mp some_)).1
  obtain ⟨t, inside, rfl⟩ := List.mem_map.mp member
  exact ⟨t, inside, longest⟩

/-- A table of tokens that scans give has columns of least widths. Each of its lines is aligned to
them, and the coloured table has the same lines with the column of the kind painted. Deleting the
escape sequences from the coloured table gives the plain one, even if the texts of the tokens hold
escape characters, brackets and digits, and whichever characters besides the ASCII digits the
deletion takes for digits. -/
theorem table_layout {ts : List Token} (scanned : ∀ t ∈ ts, ∃ source, t ∈ (scan source).1) :
    (ts ≠ [] → ∃ w k, ∃ line : Token → List Char,
      lines (table false ts).toList = ts.map line ∧
      lines (table true ts).toList = ts.map (fun t => painted w k t.kind (line t)) ∧
      (∀ t ∈ ts, Aligned w k t (line t)) ∧
      (∃ t ∈ ts, (place t).length = w) ∧ (∃ t ∈ ts, t.kind.name.length = k) ∧
      ∀ w' k' (line' : Token → List Char), (∀ t ∈ ts, Aligned w' k' t (line' t)) →
        w ≤ w' ∧ k ≤ k') ∧
    ∀ digit : Char → Bool, (∀ c, c.isDigit = true → digit c = true) → digit 'm' = false →
      dropEscapes digit (table true ts).toList = (table false ts).toList := by
  have plain : ∀ c ∈ lineEnds, ∀ t ∈ ts, c ∉ t.text.toList := by
    intro c ends t member
    obtain ⟨source, inside⟩ := scanned t member
    exact scan_lineless c ends t inside
  refine ⟨fun some_ => ?_, fun digit digits stop => dropEscapes_rows digits stop ?_ _ _⟩
  · obtain ⟨t, member, longest⟩ := exists_length_eq_width some_ place
    obtain ⟨u, inside, longestKind⟩ := exists_length_eq_width some_ (·.kind.name)
    refine ⟨_, _, _, lines_table plain false, ?_,
      fun t member => aligned_row (narrow_of_mem member), ⟨t, member, longest⟩,
      ⟨u, inside, longestKind⟩, fun w' k' line' aligned => ?_⟩
    · rw [lines_table plain true]
      exact List.map_congr_left fun t member => painted_row (narrow_of_mem member)
    · rw [← longest, ← longestKind]
      exact ⟨(aligned t member).narrow.place, (aligned u inside).narrow.kind⟩
  · intro t member
    obtain ⟨source, inside⟩ := scanned t member
    exact escapeAlone_of_mem_scan inside

/-- An escape character and a bracket from two scans, in this order. -/
def escapeAndBracket : List Token := [⟨.unknown, "\x1b", 1, 1⟩, ⟨.unknown, "[", 1, 1⟩]

theorem table_layout_escape :
    (∀ t ∈ escapeAndBracket, ∃ source, t ∈ (scan source).1) ∧ escapeAndBracket ≠ [] ∧
    (∃ w k line, lines (table false escapeAndBracket).toList = escapeAndBracket.map line ∧
      ∀ t ∈ escapeAndBracket, Aligned w k t (line t)) ∧
    dropEscapes Char.isDigit (table true escapeAndBracket).toList =
      (table false escapeAndBracket).toList := by
  have single : ∀ {c : Char}, Lexeme.Fits ⟨.unknown, [c]⟩ →
      ∃ source, (⟨.unknown, String.ofList [c], 1, 1⟩ : Token) ∈ (scan source).1 := by
    intro c fits
    refine ⟨String.ofList [c], ?_⟩
    rw [Tiling.scan_unknown fits]
    exact List.mem_singleton_self _
  have scanned : ∀ t ∈ escapeAndBracket, ∃ source, t ∈ (scan source).1 := by
    simp only [escapeAndBracket, List.forall_mem_cons]
    exact ⟨single (.unknown rfl rfl (by decide) (by decide)),
      single (.unknown rfl rfl (by decide) (by decide)), nofun⟩
  have some_ : escapeAndBracket ≠ [] := List.cons_ne_nil _ _
  obtain ⟨layout, deletion⟩ := table_layout scanned
  obtain ⟨w, k, line, plain, -, aligned, -⟩ := layout some_
  exact ⟨scanned, some_, ⟨w, k, line, plain, aligned⟩,
    deletion Char.isDigit (fun _ digit => digit) (by decide)⟩

end Listing

end ExprLexer
