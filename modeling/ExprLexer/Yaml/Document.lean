import ExprLexer.Yaml.Node
import ExprLexer.Yaml.Scalar

/-!
# Documents as data

Collections are built level by level, so of several faults the one nearest to the root counts, and
of those the first. A node is built the same in every place where an alias repeats it, as the
reader gives no nodes that would be changed by it. `load` reads the one document of a text.
-/

namespace ExprLexer.Yaml

/-- A fault and the depth at which it was met. -/
abbrev Build (α : Type) := Except (Nat × Fault) α

/-- Both results, or of two faults the one nearer to the root, and the first of equals. -/
def both (a : Build α) (b : Build β) : Build (α × β) :=
  match a, b with
  | .ok x, .ok y => .ok (x, y)
  | .error e, .ok _ => .error e
  | .ok _, .error e => .error e
  | .error e, .error f => .error (if f.1 < e.1 then f else e)

/-- The text of a scalar. A mapping counts as the scalar under its key `=`. -/
def scalarText? : Node → Option Text.Points
  | .scalar _ text => some text
  | .sequence _ _ => none
  | .mapping _ entries => ofEntries entries
where
  /-- The text under the first key `=`. -/
  ofEntries : List (Node × Node) → Option Text.Points
    | [] => none
    | (k, v) :: rest => if k.tag = .value then scalarText? v else ofEntries rest

/-- The entries that merge keys bring into a mapping, and its own entries. -/
structure Merged where
  brought : List (Node × Node)
  own : List (Node × Node)

/-- Merged entries come first, so that the mapping's own entries overrule them. -/
def Merged.all (m : Merged) : List (Node × Node) := m.brought ++ m.own

/-- A key `=` is a string. -/
def asKey (k : Node) : Node := if k.tag = .value then k.withTag .str else k

mutual

/-- Entries set apart by whether a merge key brings them in. -/
def merged : List (Node × Node) → Except Fault Merged
  | [] => .ok ⟨[], []⟩
  | (k, v) :: rest =>
    if k.tag = .merge then
      match broughtBy v with
      | .error f => .error f
      | .ok es => (merged rest).map fun m => { m with brought := es ++ m.brought }
    else (merged rest).map fun m => { m with own := (asKey k, v) :: m.own }

def broughtBy : Node → Except Fault (List (Node × Node))
  | .mapping _ entries => (merged entries).map Merged.all
  | .sequence _ items => broughtByAll items
  | .scalar .. => .error .malformed

/-- The entries of several mappings, those of the last one first. -/
def broughtByAll : List Node → Except Fault (List (Node × Node))
  | [] => .ok []
  | .mapping _ entries :: rest =>
    match merged entries with
    | .error f => .error f
    | .ok m => (broughtByAll rest).map (· ++ m.all)
  | _ :: _ => .error .malformed

end

/-- Collections are no keys. -/
def isKey (n : Node) : Bool := !n.tag.isCollection

/-- The key and the value of an item in a sequence of entries, which is a mapping with one entry as
it stands. -/
def single? : Node → Option (Node × Node)
  | .mapping _ [e] => some e
  | _ => none

/-- The value of a node whose type is built from a text. -/
def scalarOf (n : Node) : Except Fault Data :=
  match scalarText? n with
  | none => .error .malformed
  | some text =>
    match n with
    | .mapping .timestamp _ => .error .unreadTimestamp
    | n => valueOf n.tag text

namespace Build

/-- The results for all items, or of their faults the one nearest to the root. -/
def each (make : α → Build β) (items : List α) : Build (List β) :=
  items.foldr (fun x acc => (both (make x) acc).map fun (b, bs) => b :: bs) (.ok [])

variable (make : Node → Build Data) (depth : Nat)

/-- An entry of a mapping; its key is looked at before its value is made. -/
def entry (e : Node × Node) : Build (Data × Data) :=
  both (if isKey e.1 then make e.1 else .error (depth, .malformed)) (make e.2)

def pair (n : Node) : Build Data :=
  match single? n with
  | none => .error (depth, .malformed)
  | some (k, v) => (both (make k) (make v)).map fun (k, v) => .pair k v

def entries (es : List (Node × Node)) : Build (List (Data × Data)) :=
  match merged es with
  | .error f => .error (depth, f)
  | .ok m => each (entry make depth) m.all

/-- What is built of the parts of a node, if it has such parts. -/
def inside (parts : Option α) (make : α → Build β) : Build β :=
  parts.elim (.error (depth, .malformed)) make

end Build

open Build in
/-- The value of a node at a depth, with fuel for the depth of the tree. The parts of a collection
stand one level below it. -/
def build : Nat → Nat → Node → Build Data
  | 0, depth, _ => .error (depth, .malformed)
  | fuel + 1, depth, n =>
    let make := build fuel (depth + 1)
    match n.tag with
    | .seq => (inside (depth + 1) n.items? (each make)).map .list
    | .omap | .pairs => (inside (depth + 1) n.items? (each (pair make (depth + 1)))).map .list
    | .map => (inside (depth + 1) n.entries? (entries make (depth + 1))).map .ofEntries
    | .set => (inside (depth + 1) n.entries? (entries make (depth + 1))).map .setOf
    | _ => (scalarOf n).mapError (depth, ·)

mutual

/-- The greatest number of nodes inside one another. -/
def height : Node → Nat
  | .scalar .. => 1
  | .sequence _ items => heightItems items + 1
  | .mapping _ entries => heightEntries entries + 1

def heightItems : List Node → Nat
  | [] => 0
  | x :: xs => max (height x) (heightItems xs)

def heightEntries : List (Node × Node) → Nat
  | [] => 0
  | (k, v) :: rest => max (max (height k) (height v)) (heightEntries rest)

end

/-- The value of the one document of a text, which is null if there is none. -/
def load (cs : List Char) : Except Fault Data :=
  match Node.ofTokens (tokens cs) with
  | .error f => .error f
  | .ok none => .ok .null
  | .ok (some n) =>
    match build (height n) 0 n with
    | .ok d => .ok d
    | .error (_, f) => .error f

end ExprLexer.Yaml
