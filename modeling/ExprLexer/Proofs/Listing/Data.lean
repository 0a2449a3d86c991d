import Mathlib.Data.List.Forall2
import ExprLexer.Proofs.Listing.Load
import ExprLexer.Proofs.Listing.Record
import ExprLexer.Proofs.Schema.Record
import ExprLexer.Proofs.Schema.Value

/-!
# Tokens from data

`Token.Record` says which data is the record of a token. A list of such data gives its tokens, and
any other list is refused at the first item that is no record (`ofData_records`).
-/

namespace ExprLexer

open Text

variable {d : Data} {t : Token}

/-! ### Records -/

/-- The record of a token: a mapping with exactly its four fields. -/
inductive Token.Record : Data → Token → Prop
  | intro {entries : List (Data × Data)} {t : Token} {text line column : Data}
      (keys : ∀ e ∈ entries, ∃ name ∈ ["kind", "text", "line", "column"], e.1 = .ofString name)
      (kind : Data.lookup? (Points.ofString "kind") entries = some (.ofString t.kind.name))
      (foundText : Data.lookup? (Points.ofString "text") entries = some text)
      (texts : Schema.Holds text t.text ∧ t.text ≠ "")
      (foundLine : Data.lookup? (Points.ofString "line") entries = some line)
      (lines : Schema.Integral line t.line ∧ 1 ≤ t.line)
      (foundColumn : Data.lookup? (Points.ofString "column") entries = some column)
      (columns : Schema.Integral column t.column ∧ 1 ≤ t.column) :
      Record (.mapping entries) t

theorem Token.Record.fine (record : Record d t) : t.text ≠ "" ∧ 1 ≤ t.line ∧ 1 ≤ t.column := by
  cases record with
  | intro _ _ _ texts _ lines _ columns => exact ⟨texts.2, lines.2, columns.2⟩

theorem Token.ofData_eq_ok_iff : ofData d = .ok t ↔ Record d t := by
  constructor
  · intro read
    unfold ofData at read
    split at read
    · next entries =>
      dsimp only at read
      split at read
      · next kind text line column kinds texts lines columns none_ =>
        obtain rfl := Except.ok.inj read
        obtain ⟨v, found, value⟩ := Schema.required_eq_ok_iff.mp kinds
        obtain ⟨w, foundText, text_⟩ := Schema.required_eq_ok_iff.mp texts
        obtain ⟨x, foundLine, line_⟩ := Schema.required_eq_ok_iff.mp lines
        obtain ⟨y, foundColumn, column_⟩ := Schema.required_eq_ok_iff.mp columns
        obtain rfl := (Schema.oneOf_eq_ok_iff Kind.mem_all Kind.name_injective).mp value
        exact .intro (Schema.extras_eq_nil_iff.mp none_) found foundText
          (Schema.nonemptyText_eq_ok_iff.mp text_) foundLine (Schema.positive_eq_ok_iff.mp line_)
          foundColumn (Schema.positive_eq_ok_iff.mp column_)
      · cases read
    · cases read
  · intro record
    cases record with
    | intro keys kind foundText texts foundLine lines foundColumn columns =>
      unfold ofData
      dsimp only
      rw [required_eq kind (oneOf_kind t.kind),
        required_eq foundText (Schema.nonemptyText_eq_ok_iff.mpr texts),
        required_eq foundLine (Schema.positive_eq_ok_iff.mpr lines),
        required_eq foundColumn (Schema.positive_eq_ok_iff.mpr columns),
        Schema.extras_eq_nil_iff.mpr keys]

theorem Token.ofData_toData_of_fine (fine : t.text ≠ "" ∧ 1 ≤ t.line ∧ 1 ≤ t.column) :
    ofData t.toData = .ok t := by
  have recordable : t.Recordable (max t.line t.column).toNat :=
    ⟨fine.1, by omega, by omega⟩
  exact ofData_toData recordable

/-! ### Lists -/

namespace Listing

variable {ds : List Data} {ts : List Token}

theorem ofRecords_eq_ok_iff (index : Nat) :
    ofRecords index ds = .ok ts ↔ List.Forall₂ Token.Record ds ts := by
  induction ds generalizing index ts with
  | nil =>
    rw [ofRecords, Except.ok.injEq, List.forall₂_nil_left_iff]
    exact eq_comm
  | cons d ds ih =>
    constructor
    · intro read
      rw [ofRecords] at read
      split at read
      · cases read
      · next t token =>
        split at read
        · next us later =>
          obtain rfl := Except.ok.inj read
          exact .cons (Token.ofData_eq_ok_iff.mp token) ((ih (index + 1)).mp later)
        · cases read
    · intro records
      cases records with
      | cons record later =>
        rw [ofRecords, Token.ofData_eq_ok_iff.mpr record]
        dsimp only
        rw [(ih (index + 1)).mpr later]

theorem ofData_list_eq_ok_iff : ofData (.list ds) = .ok ts ↔ List.Forall₂ Token.Record ds ts :=
  ofRecords_eq_ok_iff 0

/-- The first item that is no record is refused, whatever follows it. -/
theorem exists_ofData_list_eq_error {before : List Data} (after : List Data)
    (records : ∀ b ∈ before, ∃ t, Token.Record b t) (other : ¬ ∃ t, Token.Record d t) :
    ∃ failure, ofData (.list (before ++ d :: after)) = .error (.record before.length failure) := by
  have tokens : ∀ b ∈ before, ∃ t, Token.ofData b = .ok t := by
    intro b member
    obtain ⟨t, record⟩ := records b member
    exact ⟨t, Token.ofData_eq_ok_iff.mpr record⟩
  cases read : Token.ofData d with
  | ok t => exact absurd ⟨t, Token.ofData_eq_ok_iff.mp read⟩ other
  | error failure =>
    exact ⟨failure, ofData_error_iff.mpr (.record tokens read)⟩

theorem fine_of_records (records : List.Forall₂ Token.Record ds ts) :
    ∀ t ∈ ts, t.text ≠ "" ∧ 1 ≤ t.line ∧ 1 ≤ t.column := by
  induction records with
  | nil => exact List.forall_mem_nil _
  | cons record later ih => exact List.forall_mem_cons.mpr ⟨record.fine, ih⟩

theorem fine_of_ofData (read : ofData d = .ok ts) :
    ∀ t ∈ ts, t.text ≠ "" ∧ 1 ≤ t.line ∧ 1 ≤ t.column := by
  unfold ofData at read
  split at read
  · obtain rfl := Except.ok.inj read
    exact List.forall_mem_nil _
  · exact fine_of_records (ofData_list_eq_ok_iff.mp read)
  · cases read

theorem ofData_toData_of_ofData (read : ofData d = .ok ts) :
    writable ts = .ok ts ∧ ofData (.list (ts.map Token.toData)) = .ok ts := by
  have fine := fine_of_ofData read
  refine ⟨writable_of_issues fun t member => Token.issues_eq_nil_iff.mpr (fine t member), ?_⟩
  exact ofRecords_eq (fun t member => Token.ofData_toData_of_fine (fine t member)) 0

/-- Items that are all records give one token each. -/
theorem exists_ofData_list (records : ∀ d ∈ ds, ∃ t, Token.Record d t) :
    ∃ ts, ofData (.list ds) = .ok ts ∧ List.Forall₂ Token.Record ds ts := by
  have all : ∃ ts, List.Forall₂ Token.Record ds ts := by
    induction ds with
    | nil => exact ⟨[], .nil⟩
    | cons d ds ih =>
      obtain ⟨⟨t, record⟩, later⟩ := List.forall_mem_cons.mp records
      obtain ⟨ts, rest⟩ := ih later
      exact ⟨t :: ts, .cons record rest⟩
  obtain ⟨ts, all⟩ := all
  exact ⟨ts, ofData_list_eq_ok_iff.mpr all, all⟩

/-- Integers may be given as whole numbers, flags or strings, and fields in any order. -/
example :
    ofData (.list [.mapping [(.ofString "column", .ofString " +1_0.00\n"),
      (.ofString "line", .real (.finite false 6 (-1))), (.ofString "kind", .ofString "OPERATOR"),
      (.ofString "text", .bytes [0x2B])]]) = .ok [⟨.operator, "+", 3, 10⟩] := by
  rfl

end Listing

/-- Null gives no tokens, and no other data but a list gives any. In a list, the first item that is
no record of a token is refused by its index, whatever follows it; without such an item each one
gives its token. Tokens that data gives are written as records that give the same tokens again. -/
theorem ofData_records :
    Listing.ofData .null = .ok [] ∧
      (∀ d, d ≠ .null → (∀ ds, d ≠ .list ds) → Listing.ofData d = .error .notAList) ∧
      (∀ before d after, (∀ b ∈ before, ∃ t, Token.Record b t) → (¬ ∃ t, Token.Record d t) →
        ∃ failure, Listing.ofData (.list (before ++ d :: after)) =
            .error (.record before.length failure) ∧
          ("Invalid token record at index " ++ toString before.length ++ ": ").toList <+:
            (DisplayError.record before.length failure).message.toList) ∧
      (∀ ds, (∀ d ∈ ds, ∃ t, Token.Record d t) →
        ∃ ts, Listing.ofData (.list ds) = .ok ts ∧ List.Forall₂ Token.Record ds ts) ∧
      ∀ d ts, Listing.ofData d = .ok ts →
        (∀ t ∈ ts, t.kind ∈ Kind.all ∧ t.text ≠ "" ∧ 1 ≤ t.line ∧ 1 ≤ t.column) ∧
          Listing.writable ts = .ok ts ∧
          Listing.ofData (.list (ts.map Token.toData)) = .ok ts := by
  refine ⟨rfl, fun d some_ other => ?_, fun before d after records other => ?_,
    fun ds records => Listing.exists_ofData_list records, fun d ts read => ?_⟩
  · exact Listing.ofData_error_iff.mpr (Listing.Refuses.notAList some_ other)
  · obtain ⟨failure, refused⟩ := Listing.exists_ofData_list_eq_error after records other
    have front : ∀ head tail : String, head.toList <+: (head ++ tail).toList := by
      intro head tail
      rw [String.toList_append]
      exact List.prefix_append _ _
    exact ⟨failure, refused, front _ failure.message⟩
  · refine ⟨fun t member => ⟨?_, Listing.fine_of_ofData read t member⟩,
      Listing.ofData_toData_of_ofData read⟩
    cases t.kind <;> decide

end ExprLexer
