import ExprLexer.Listing.Record
import ExprLexer.Yaml.Document

/-!
# Loading tokens

Tokens read back from a document that lists their records. `LoadError` keeps the faults that end
the run apart from what is wrong with the document or its records.
-/

namespace ExprLexer

inductive DisplayError where
  | notAList
  | record (index : Nat) (failure : Schema.Failure)
  | malformed
  deriving Repr

def DisplayError.message : DisplayError → String
  | notAList => "Token data must be a list of records"
  | record index failure =>
    "Invalid token record at index " ++ toString index ++ ": " ++ failure.message
  | malformed => "Invalid token data: " ++ Yaml.Fault.malformed.message

inductive LoadError where
  | display (e : DisplayError)
  /-- A fault of the document other than that it is malformed, most often one of a scalar. -/
  | scalar (f : Yaml.Fault)
  deriving Repr

namespace Listing

def ofRecords (index : Nat) : List Data → Except DisplayError (List Token)
  | [] => .ok []
  | d :: ds =>
    match Token.ofData d with
    | .error f => .error (.record index f)
    | .ok t =>
      match ofRecords (index + 1) ds with
      | .ok ts => .ok (t :: ts)
      | .error e => .error e

/-- The tokens that data describes; null describes none. -/
def ofData : Data → Except DisplayError (List Token)
  | .null => .ok []
  | .list ds => ofRecords 0 ds
  | _ => .error .notAList

def load (text : String) : Except LoadError (List Token) :=
  match Yaml.load text.toList with
  | .error .malformed => .error (.display .malformed)
  | .error f => .error (.scalar f)
  | .ok d =>
    match ofData d with
    | .ok ts => .ok ts
    | .error e => .error (.display e)

end Listing

end ExprLexer
