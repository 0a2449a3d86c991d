import ExprLexer.Json.Printer
import ExprLexer.Listing.Format
import ExprLexer.Listing.Plain
import ExprLexer.Problem
import ExprLexer.Schema.Record
import ExprLexer.Schema.Value
import ExprLexer.Yaml.Writer

/-!
# Token records

The form of tokens in documents: mappings with a kind, a text that is not empty, and a line and a
column that count from one. Listings as documents hold one record per token. A listing of any format
is refused if a line or a column in it is too long to be written.
-/

namespace ExprLexer

namespace Token

def schema : String := "TokenRecord"

/-- The token that a record describes. -/
def ofData (d : Data) : Except Schema.Failure Token :=
  match d with
  | .mapping entries =>
    let kind := Schema.required d entries "kind" (Schema.oneOf Kind.all Kind.name)
    let text := Schema.required d entries "text" Schema.nonemptyText
    let line := Schema.required d entries "line" Schema.positive
    let column := Schema.required d entries "column" Schema.positive
    let extras := Schema.extras ["kind", "text", "line", "column"] entries
    match kind, text, line, column, extras with
    | .ok kind, .ok text, .ok line, .ok column, [] => .ok ⟨kind, text, line, column⟩
    | _, _, _, _, _ =>
      .error (Schema.failure schema (Schema.issueOf kind ++ Schema.issueOf text
        ++ Schema.issueOf line ++ Schema.issueOf column ++ extras))
  | _ => .error ⟨schema, [⟨none, .notARecord, d⟩]⟩

def toData (t : Token) : Data :=
  .mapping [(.ofString "kind", .ofString t.kind.name), (.ofString "text", .ofString t.text),
    (.ofString "line", .int t.line), (.ofString "column", .int t.column)]

def toJson (t : Token) : Json :=
  .object [("kind", .string t.kind.name), ("text", .string t.text), ("line", .int t.line),
    ("column", .int t.column)]

/-- Its line and its column have few enough digits to be written. -/
def isShort (t : Token) : Bool := !Text.isLong t.line && !Text.isLong t.column

/-- The issues that keep a token from being written as a record. -/
def issues (t : Token) : List Schema.Issue :=
  (if t.text.isEmpty then [⟨some "text", .tooShort, .ofString t.text⟩] else [])
    ++ (if t.line < 1 then [⟨some "line", .belowOne, .int t.line⟩] else [])
    ++ (if t.column < 1 then [⟨some "column", .belowOne, .int t.column⟩] else [])

end Token

namespace Listing

/-- The tokens as they are, or the issues of the first one that cannot be written. -/
def writable : List Token → Except Schema.Failure (List Token)
  | [] => .ok []
  | t :: ts =>
    if t.issues.isEmpty then
      match writable ts with
      | .ok ts => .ok (t :: ts)
      | .error f => .error f
    else .error ⟨Token.schema, t.issues⟩

def yamlItem (t : Token) : String :=
  "- kind: " ++ t.kind.name ++ "\n  text: " ++ String.ofList (Yaml.writeScalar t.text.toList)
    ++ "\n  line: " ++ toString t.line ++ "\n  column: " ++ toString t.column ++ "\n"

/-- The listing of the tokens, unless it would show an integer that is too long. -/
def written (tokens : List Token) (listing : String) : Except Escape String :=
  if tokens.all Token.isShort then .ok listing else .error .longInteger

/-- The listing of tokens as records, which are checked before anything is written. -/
def document (layout : List Token → String) (tokens : List Token) : Except Escape String :=
  match writable tokens with
  | .error f => .error (.record f)
  | .ok ts => written ts (layout ts)

def yaml : List Token → Except Escape String :=
  document fun ts => if ts.isEmpty then "[]\n" else String.join (ts.map yamlItem)

def json : List Token → Except Escape String :=
  document fun ts => (Json.array (ts.map Token.toJson)).pretty ++ "\n"

/-- A token on its own as a line of text. -/
def line (t : Token) : Except Escape String := written [t] (describe t)

def render (format : Format) (coloured : Bool) (tokens : List Token) : Except Escape String :=
  match format with
  | .text => written tokens (text tokens)
  | .table => written tokens (table coloured tokens)
  | .yaml => yaml tokens
  | .json => json tokens

end Listing

end ExprLexer
