import ExprLexer.Json.Value
import ExprLexer.Number.Shortest
import ExprLexer.Text.Digits
import ExprLexer.Text.Units

/-!
# JSON texts

Values written in ASCII alone, either on one line or with one item a line. Characters outside the
range from the space to the tilde are escaped by their UTF-16 units.
-/

namespace ExprLexer.Json

/-- An escape by number. -/
def escapeUnit (u : Nat) : List Char := '\\' :: 'u' :: Text.hex Text.lowerDigit 4 u

/-- One character inside a JSON string. -/
def escapeChar (c : Char) : List Char :=
  if c = '"' then ['\\', '"']
  else if c = '\\' then ['\\', '\\']
  else if c = '\n' then ['\\', 'n']
  else if c = '\r' then ['\\', 'r']
  else if c = '\t' then ['\\', 't']
  else if c = '\x08' then ['\\', 'b']
  else if c = '\x0c' then ['\\', 'f']
  else if ' ' ≤ c ∧ c ≤ '~' then [c]
  else (Text.units c.toNat).flatMap escapeUnit

def stringText (cs : List Char) : List Char := '"' :: (cs.flatMap escapeChar ++ ['"'])

/-- How the items of arrays and objects are set apart. -/
structure Layout where
  /-- Spaces by which each level is indented; `none` puts all on one line. -/
  indent : Option Nat
  deriving DecidableEq, Repr

namespace Layout

def line : Layout := ⟨none⟩

def pretty : Layout := ⟨some 2⟩

def newline (l : Layout) (depth : Nat) : List Char :=
  match l.indent with
  | none => []
  | some n => '\n' :: List.replicate (n * depth) ' '

def separator (l : Layout) (depth : Nat) : List Char :=
  match l.indent with
  | none => [',', ' ']
  | some _ => ',' :: l.newline depth

end Layout

def bracket (l : Layout) (depth : Nat) (opening closing : Char) (items : List (List Char)) :
    List Char :=
  if items.isEmpty then [opening, closing]
  else
    opening :: (l.newline (depth + 1) ++ (items.intersperse (l.separator (depth + 1))).flatten
      ++ l.newline depth ++ [closing])

mutual

def print (l : Layout) (depth : Nat) : Json → List Char
  | null => "null".toList
  | bool true => "true".toList
  | bool false => "false".toList
  | int i => (toString i).toList
  | real x => x.display.toList
  | string s => stringText s.toList
  | array items => bracket l depth '[' ']' (printItems l (depth + 1) items)
  | object members => bracket l depth '\x7b' '\x7d' (printMembers l (depth + 1) members)

def printItems (l : Layout) (depth : Nat) : List Json → List (List Char)
  | [] => []
  | x :: xs => print l depth x :: printItems l depth xs

def printMembers (l : Layout) (depth : Nat) : List (String × Json) → List (List Char)
  | [] => []
  | (name, x) :: xs =>
    (stringText name.toList ++ ':' :: ' ' :: print l depth x) :: printMembers l depth xs

end

theorem printItems_eq_map (l : Layout) (depth : Nat) (items : List Json) :
    printItems l depth items = items.map (print l depth) := by
  induction items with
  | nil => rfl
  | cons x items ih => rw [printItems, ih, List.map_cons]

theorem printMembers_eq_map (l : Layout) (depth : Nat) (members : List (String × Json)) :
    printMembers l depth members =
      members.map fun (name, x) => stringText name.toList ++ ':' :: ' ' :: print l depth x := by
  induction members with
  | nil => rfl
  | cons m members ih => rw [printMembers, ih, List.map_cons]

def compact (j : Json) : String := String.ofList (print .line 0 j)

def pretty (j : Json) : String := String.ofList (print .pretty 0 j)

end ExprLexer.Json
