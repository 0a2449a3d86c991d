import ExprLexer.Number.Double

/-!
# JSON values

Objects keep their members in order.
-/

namespace ExprLexer

inductive Json where
  | null
  | bool (b : Bool)
  | int (i : Int)
  | real (x : Double)
  | string (s : String)
  | array (items : List Json)
  | object (members : List (String × Json))
  deriving Repr

namespace Json

/-- The last member of the given name, if the value is an object with one. -/
def field? (name : String) : Json → Option Json
  | object members => (members.reverse.find? (·.1 == name)).map (·.2)
  | _ => none

end Json

end ExprLexer
