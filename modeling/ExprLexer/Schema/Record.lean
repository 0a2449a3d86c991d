import ExprLexer.Schema.Issue

/-!
# Records

A record is a mapping with known keys. Each field is found under its first name that is present;
any key that no field uses is an issue.
-/

namespace ExprLexer.Schema

/-- The first of the names that is present, with its value. -/
def find? (entries : List (Data × Data)) : List String → Option (String × Data)
  | [] => none
  | name :: rest =>
    match Data.lookup? (Text.Points.ofString name) entries with
    | some d => some (name, d)
    | none => find? entries rest

def required (record : Data) (entries : List (Data × Data)) (name : String)
    (read : Data → Except Cause α) : Except Issue α :=
  match find? entries [name] with
  | none => .error ⟨some name, .missing, record⟩
  | some (_, d) =>
    match read d with
    | .ok a => .ok a
    | .error c => .error ⟨some name, c, d⟩

/-- The value of a field under one of its names, or what it is by default. -/
def optional (entries : List (Data × Data)) (names : List String) (usual : α)
    (read : Data → Except Cause α) : Except Issue α :=
  match find? entries names with
  | none => .ok usual
  | some (name, d) =>
    match read d with
    | .ok a => .ok a
    | .error c => .error ⟨some name, c, d⟩

/-- The key as an issue names it, if it is no text. -/
def keyName : Data → String
  | .bool b => if b then "1" else "0"
  | d => String.ofList d.shown

/-- The issues of keys that no field uses. -/
def extras (used : List String) (entries : List (Data × Data)) : List Issue :=
  entries.filterMap fun (k, v) =>
    match k with
    | .text t =>
      match t.toString? with
      | some s => if used.contains s then none else some ⟨some s, .extra, v⟩
      | none => some ⟨none, .notUnicode, k⟩
    | _ => some ⟨some (keyName k), .keyNotText, k⟩

/-- The failure of a record. A key with surrogates ends the reading of the record, so that it is the
only issue. -/
def failure (schema : String) (issues : List Issue) : Failure :=
  ⟨schema, (issues.find? (·.location.isNone)).elim issues ([·])⟩

def issueOf : Except Issue α → List Issue
  | .ok _ => []
  | .error i => [i]

end ExprLexer.Schema
