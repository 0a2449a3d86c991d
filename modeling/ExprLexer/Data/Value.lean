import ExprLexer.Data.Moment
import ExprLexer.Number.Double
import ExprLexer.Text.Points

/-!
# Data

The values that a document can hold. A mapping keeps its entries in the order in which their keys
first appear, and so does a set its items; `sameKey` says which keys are one.
-/

namespace ExprLexer

inductive Data where
  | null
  | bool (b : Bool)
  | int (i : Int)
  | real (x : Double)
  | text (t : Text.Points)
  | bytes (bs : List UInt8)
  | date (year month day : Nat)
  | moment (m : Moment)
  /-- A key and its value in an ordered mapping. -/
  | pair (key value : Data)
  | list (items : List Data)
  | set (items : List Data)
  | mapping (entries : List (Data × Data))
  deriving Repr

namespace Data

def ofString (s : String) : Data := text (Text.Points.ofString s)

/-- The number that a value counts as among keys. -/
def number? : Data → Option (Int ⊕ Double)
  | bool b => some (.inl (if b then 1 else 0))
  | int i => some (.inl i)
  | real x => some ((x.toInt?).elim (.inr x) .inl)
  | _ => none

/-- Whether two keys are the same: numbers by value, moments by the time they stand for, and texts,
bytes and dates by content. -/
def sameKey (a b : Data) : Bool :=
  match a.number?, b.number? with
  | some (.inl i), some (.inl j) => i = j
  | some (.inr x), some (.inr y) => x.same y
  | some _, _ | _, some _ => false
  | none, none =>
    match a, b with
    | null, null => true
    | text s, text t => s = t
    | bytes s, bytes t => s = t
    | date y m d, date y' m' d' => y = y' && m = m' && d = d'
    | moment m, moment n => m.same n
    | _, _ => false

/-- The entries with `value` under `key`, which keeps its place if it was there. -/
def put (key value : Data) : List (Data × Data) → List (Data × Data)
  | [] => [(key, value)]
  | (k, v) :: rest =>
    if k.sameKey key then (k, value) :: rest else (k, v) :: put key value rest

/-- The entries of which no two have the same key; later ones overrule earlier ones. -/
def overruled (entries : List (Data × Data)) : List (Data × Data) :=
  entries.foldl (fun es e => put e.1 e.2 es) []

def ofEntries (entries : List (Data × Data)) : Data := mapping (overruled entries)

/-- The keys of the entries. -/
def setOf (entries : List (Data × Data)) : Data := set ((overruled entries).map Prod.fst)

def lookup? (name : Text.Points) : List (Data × Data) → Option Data
  | [] => none
  | (text t, v) :: rest => if t = name then some v else lookup? name rest
  | _ :: rest => lookup? name rest

end Data

end ExprLexer
