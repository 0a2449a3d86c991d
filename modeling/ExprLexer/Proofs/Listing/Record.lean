import ExprLexer.Listing.Load
import ExprLexer.Proofs.Scan.Place
import ExprLexer.Proofs.Yaml.Writer

/-!
# Records of tokens

Every token that the scanner gives can be written as a record (`scan_recordable`), and the data of a
record gives its token back (`ofData_toData`), unless its text is spelled in surrogates.
-/

namespace ExprLexer

theorem Kind.mem_all (k : Kind) : k ∈ all := by cases k <;> decide

theorem Kind.name_injective : Function.Injective Kind.name := by
  intro k m same
  revert same
  cases k <;> cases m <;> decide

/-- What the forms of records ask of a token, with a bound on its place. -/
structure Token.Recordable (bound : Nat) (t : Token) : Prop where
  some_ : t.text ≠ ""
  line : 1 ≤ t.line ∧ t.line ≤ bound
  column : 1 ≤ t.column ∧ t.column ≤ bound

/-! ### Tokens of scans -/

theorem Position.ofPrefix_le (before : List Char) :
    (ofPrefix before).line ≤ before.length + 1 ∧ (ofPrefix before).column ≤ before.length + 1 := by
  have lines : before.count '\n' ≤ before.length := List.count_le_length
  have row := (List.rtakeWhile_suffix (· ≠ '\n') before).length_le
  unfold ofPrefix
  dsimp only
  omega

theorem exists_lexeme_of_mem_scan {source : String} {t : Token} (member : t ∈ (scan source).1) :
    ∃ (before : List Char) (l : Lexeme), l.Fits ∧ before ++ l.text <+: source.toList ∧
      t.text.toList = l.text ∧ t = Token.located l.kind l.text (Position.ofPrefix before) := by
  obtain ⟨L, text, exact_⟩ := Tiling.exists_exact source.toList
  have tokens := Tiling.tokens_eq_sites L []
  rw [Position.after_nil] at tokens
  rw [Tiling.scan_eq text exact_, tokens] at member
  obtain ⟨⟨before, l⟩, site, rfl⟩ := List.mem_map.mp member
  obtain ⟨fits, inside⟩ := Tiling.mem_sites exact_ site
  rw [List.nil_append, text] at inside
  exact ⟨before, l, fits, inside, String.toList_ofList, rfl⟩

theorem scan_recordable (source : String) :
    ∀ t ∈ (scan source).1, t.Recordable source.length := by
  intro t member
  obtain ⟨before, l, fits, inside, spelled, place⟩ := exists_lexeme_of_mem_scan member
  have long : before.length + 1 ≤ source.length := by
    have length := inside.length_le
    have positive := List.length_pos_iff.mpr fits.ne_nil
    rw [List.length_append, String.length_toList] at length
    omega
  obtain ⟨line, column⟩ := Position.ofPrefix_le before
  refine ⟨?_, ?_, ?_⟩
  · intro nothing
    rw [nothing] at spelled
    exact fits.ne_nil spelled.symm
  · rw [place]
    simp only [Token.located, Position.ofPrefix] at line ⊢
    omega
  · rw [place]
    simp only [Token.located, Position.ofPrefix] at column ⊢
    omega

/-- No token holds a blank character. -/
theorem scan_unblank {source : String} {t : Token} (member : t ∈ (scan source).1) :
    ∀ c ∈ t.text.toList, Text.isBlank c = false := by
  obtain ⟨-, l, fits, -, spelled, -⟩ := exists_lexeme_of_mem_scan member
  rw [spelled]
  exact fits.not_isBlank

theorem scan_spaceless (source : String) : ∀ t ∈ (scan source).1, ' ' ∉ t.text.toList :=
  fun _ member space => absurd (scan_unblank member ' ' space) (by decide)

/-! ### Writing records -/

namespace Token

variable {bound : Nat} {t : Token}

theorem issues_eq_nil_iff : t.issues = [] ↔ t.text ≠ "" ∧ 1 ≤ t.line ∧ 1 ≤ t.column := by
  rw [issues, List.append_eq_nil_iff, List.append_eq_nil_iff, and_assoc]
  refine and_congr ?_ (and_congr ?_ ?_)
  · simp [String.isEmpty_iff]
  · simp
  · simp

theorem Recordable.issues_eq_nil (recordable : t.Recordable bound) : t.issues = [] :=
  issues_eq_nil_iff.mpr ⟨recordable.some_, recordable.line.1, recordable.column.1⟩

theorem isShort_iff : t.isShort = true ↔
    t.line.natAbs < 10 ^ Text.maxWritten ∧ t.column.natAbs < 10 ^ Text.maxWritten := by
  have short : ∀ i, Text.isLong i = false ↔ i.natAbs < 10 ^ Text.maxWritten := fun i => by
    rw [Text.isLong, decide_eq_false_iff_not, Nat.not_lt]
    exact Nat.length_toDigits_le_iff (by decide) (by decide)
  rw [isShort, Bool.and_eq_true_iff, Bool.not_eq_true', Bool.not_eq_true', short, short]

theorem isShort_of_lt (small : t.line.natAbs < 100 ∧ t.column.natAbs < 100) :
    t.isShort = true := by
  have hundred : 10 ^ 2 ≤ 10 ^ Text.maxWritten := Nat.pow_le_pow_right (by decide) (by decide)
  exact isShort_iff.mpr (small.imp (Nat.lt_of_lt_of_le · hundred) (Nat.lt_of_lt_of_le · hundred))

theorem Recordable.isShort (recordable : t.Recordable bound)
    (short : bound < 10 ^ Text.maxWritten) : t.isShort = true := by
  obtain ⟨-, line, column⟩ := recordable
  rw [isShort_iff]
  generalize 10 ^ Text.maxWritten = limit at short ⊢
  omega

end Token

namespace Listing

variable {bound : Nat} {t : Token} {ts : List Token}

theorem writable_of_issues (fine : ∀ t ∈ ts, t.issues = []) : writable ts = .ok ts := by
  induction ts with
  | nil => rfl
  | cons t ts ih =>
    obtain ⟨first, later⟩ := List.forall_mem_cons.mp fine
    rw [writable, first, ih later]
    rfl

/-- Tokens are not written when one of them has an issue. -/
theorem exists_writable_eq_error (member : t ∈ ts) (issue : t.issues ≠ []) :
    ∃ f, writable ts = .error f := by
  induction ts with
  | nil => cases member
  | cons u us ih =>
    rw [writable]
    split
    · next fine =>
      rcases List.mem_cons.mp member with rfl | later
      · exact absurd (List.isEmpty_iff.mp fine) issue
      · obtain ⟨f, refused⟩ := ih later
        exact ⟨f, by rw [refused]⟩
    · exact ⟨_, rfl⟩

/-- What is written are the tokens as they are, and none of them has an issue. -/
theorem writable_eq_ok_iff {us : List Token} :
    writable ts = .ok us ↔ us = ts ∧ ∀ t ∈ ts, t.issues = [] := by
  refine ⟨fun written => ?_, fun ⟨same, fine⟩ => ?_⟩
  · have fine : ∀ t ∈ ts, t.issues = [] := by
      intro t member
      by_contra issue
      obtain ⟨f, refused⟩ := exists_writable_eq_error member issue
      cases refused.symm.trans written
    rw [writable_of_issues fine] at written
    exact ⟨(Except.ok.inj written).symm, fine⟩
  · rw [same]
    exact writable_of_issues fine

theorem written_of_isShort (short : ∀ t ∈ ts, t.isShort = true) (listing : String) :
    written ts listing = .ok listing :=
  if_pos (List.all_eq_true.mpr short)

theorem written_eq_ok_iff {listing text : String} :
    written ts listing = .ok text ↔ (∀ t ∈ ts, t.isShort = true) ∧ text = listing := by
  refine ⟨fun given => ?_, fun ⟨short, same⟩ => same ▸ written_of_isShort short listing⟩
  unfold written at given
  split at given
  · next short => exact ⟨List.all_eq_true.mp short, (Except.ok.inj given).symm⟩
  · cases given

theorem maxDigits_eq : Yaml.maxDigits = Text.maxWritten := rfl

/-- Only an integer that is too long keeps a listing from being written. -/
theorem written_eq_error_iff {listing : String} {e : Escape} :
    written ts listing = .error e ↔ (∃ t ∈ ts, t.isShort = false) ∧ e = .longInteger := by
  unfold written
  split
  · next short =>
    refine ⟨nofun, fun ⟨⟨t, member, long⟩, _⟩ => ?_⟩
    exact absurd (List.all_eq_true.mp short t member) (Bool.eq_false_iff.mp long)
  · next long =>
    rw [Bool.not_eq_true, List.all_eq_false] at long
    obtain ⟨t, member, long⟩ := long
    rw [Except.error.injEq, eq_comm]
    exact ⟨fun same => ⟨⟨t, member, Bool.eq_false_iff.mpr long⟩, same⟩, And.right⟩

theorem document_eq_ok_iff {layout : List Token → String} {text : String} :
    document layout ts = .ok text ↔
      (∀ t ∈ ts, t.issues = []) ∧ (∀ t ∈ ts, t.isShort = true) ∧ text = layout ts := by
  unfold document
  cases result : writable ts with
  | error f =>
    refine ⟨nofun, fun ⟨fine, _⟩ => ?_⟩
    cases result.symm.trans (writable_of_issues fine)
  | ok us =>
    obtain ⟨rfl, fine⟩ := writable_eq_ok_iff.mp result
    rw [written_eq_ok_iff, and_iff_right fine]

theorem json_eq_ok_iff {text : String} : json ts = .ok text ↔
    (∀ t ∈ ts, t.issues = []) ∧ (∀ t ∈ ts, t.isShort = true) ∧
      text = (Json.array (ts.map Token.toJson)).pretty ++ "\n" :=
  document_eq_ok_iff

theorem document_of_recordable (recordable : ∀ t ∈ ts, t.Recordable bound)
    (short : bound < 10 ^ Text.maxWritten) (layout : List Token → String) :
    document layout ts = .ok (layout ts) :=
  document_eq_ok_iff.mpr ⟨fun t member => (recordable t member).issues_eq_nil,
    fun t member => (recordable t member).isShort short, rfl⟩

end Listing

/-! ### Reading records -/

namespace Token

theorem positive_int {i : Int} (positive : 1 ≤ i) : Schema.positive (.int i) = .ok i :=
  if_neg (Int.not_lt.mpr positive)

theorem oneOf_kind (k : Kind) :
    Schema.oneOf Kind.all Kind.name (.ofString k.name) = .ok k := by
  cases k <;> decide

theorem required_eq {α : Type} {d v : Data} {entries : List (Data × Data)} {name : String}
    {read : Data → Except Schema.Cause α} {a : α}
    (found : Data.lookup? (Text.Points.ofString name) entries = some v) (value : read v = .ok a) :
    Schema.required d entries name read = .ok a := by
  rw [Schema.required, Schema.find?, found]
  dsimp only
  rw [value]

theorem required_error {α : Type} {d v : Data} {entries : List (Data × Data)} {name : String}
    {read : Data → Except Schema.Cause α} {c : Schema.Cause}
    (found : Data.lookup? (Text.Points.ofString name) entries = some v)
    (value : read v = .error c) :
    Schema.required d entries name read = .error ⟨some name, c, v⟩ := by
  rw [Schema.required, Schema.find?, found]
  dsimp only
  rw [value]

/-- The data of a record whose text is spelled by the given code points. -/
def dataAs (text : Text.Points) (t : Token) : Data :=
  .mapping [(.ofString "kind", .ofString t.kind.name), (.ofString "text", .text text),
    (.ofString "line", .int t.line), (.ofString "column", .int t.column)]

theorem extras_dataAs (kind text line column : Data) :
    Schema.extras ["kind", "text", "line", "column"]
      [(.ofString "kind", kind), (.ofString "text", text), (.ofString "line", line),
        (.ofString "column", column)] = [] := by
  simp [Schema.extras, Data.ofString, Text.Points.toString?_ofString]

variable {bound : Nat} {t : Token} {text : Text.Points}

theorem ofData_spelled (recordable : t.Recordable bound) (spelled : text.toString? = some t.text) :
    ofData (t.dataAs text) = .ok t := by
  obtain ⟨kind, word, line, column⟩ := t
  have some_ : word.isEmpty = false := String.isEmpty_eq_false_iff.mpr recordable.some_
  have text_ : Schema.nonemptyText (.text text) = .ok word := by
    rw [Schema.nonemptyText, Schema.text, Schema.unicode?, spelled]
    dsimp only
    rw [some_]
    rfl
  have line_ := positive_int recordable.line.1
  have column_ := positive_int recordable.column.1
  unfold ofData dataAs
  dsimp only
  rw [extras_dataAs, required_eq (v := .ofString kind.name) rfl (oneOf_kind kind),
    required_eq (v := .text text) rfl text_, required_eq (v := .int line) rfl line_,
    required_eq (v := .int column) rfl column_]

theorem ofData_surrogates (recordable : t.Recordable bound) (surrogates : text.toString? = none) :
    ofData (t.dataAs text) = .error ⟨schema, [⟨some "text", .notUnicode, .text text⟩]⟩ := by
  obtain ⟨kind, word, line, column⟩ := t
  have text_ : Schema.nonemptyText (.text text) = .error .notUnicode := by
    rw [Schema.nonemptyText, Schema.text, Schema.unicode?, surrogates]
  have line_ := positive_int recordable.line.1
  have column_ := positive_int recordable.column.1
  unfold ofData dataAs
  dsimp only
  rw [extras_dataAs, required_eq (v := .ofString kind.name) rfl (oneOf_kind kind),
    required_error (v := .text text) rfl text_, required_eq (v := .int line) rfl line_,
    required_eq (v := .int column) rfl column_]
  rfl

theorem ofData_toData (recordable : t.Recordable bound) : ofData t.toData = .ok t :=
  ofData_spelled recordable (Text.Points.toString?_ofString t.text)

end Token

namespace Listing

variable {data : Token → Data} {ts : List Token}

/-- Records that give tokens are read one after another. -/
theorem ofRecords_append (read : ∀ t ∈ ts, Token.ofData (data t) = .ok t) (index : Nat)
    (rest : List Data) :
    ofRecords index (ts.map data ++ rest) =
      (ofRecords (index + ts.length) rest).map (ts ++ ·) := by
  induction ts generalizing index with
  | nil =>
    rw [List.map_nil, List.nil_append, List.length_nil, Nat.add_zero]
    cases ofRecords index rest with
    | error e => rfl
    | ok us => rfl
  | cons t ts ih =>
    obtain ⟨first, later⟩ := List.forall_mem_cons.mp read
    rw [List.map_cons, List.cons_append, ofRecords, first]
    dsimp only
    rw [ih later, List.length_cons, Nat.add_right_comm, Nat.add_assoc]
    cases ofRecords (index + (ts.length + 1)) rest with
    | error e => rfl
    | ok us => rfl

theorem ofRecords_eq (read : ∀ t ∈ ts, Token.ofData (data t) = .ok t) (index : Nat) :
    ofRecords index (ts.map data) = .ok ts := by
  have whole := ofRecords_append read index []
  rw [List.append_nil] at whole
  rw [whole, ofRecords, Except.map, List.append_nil]

end Listing

end ExprLexer
