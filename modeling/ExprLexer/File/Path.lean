import ExprLexer.Text.Pieces

/-!
# Paths

A path names a place in a file tree. It keeps no empty component and no `.`, so paths that differ
in these only are equal; `..` stays, as what it means depends on the tree.
-/

namespace ExprLexer

/-- Where a path starts. Exactly two slashes at the front stay two. -/
inductive Path.Root where
  | relative | slash | doubleSlash
  deriving DecidableEq, Repr

def Path.Root.text : Path.Root → String
  | relative => ""
  | slash => "/"
  | doubleSlash => "//"

structure Path where
  root : Path.Root
  parts : List String
  deriving DecidableEq, Repr

namespace Path

def rootOf (slashes : Nat) : Root :=
  match slashes with
  | 0 => .relative
  | 2 => .doubleSlash
  | _ => .slash

def ofString (s : String) : Path :=
  let cs := s.toList
  ⟨rootOf (cs.takeWhile (· = '/')).length,
    ((Text.pieces '/' cs).map String.ofList).filter fun p => p ≠ "" ∧ p ≠ "."⟩

def toString (p : Path) : String :=
  if p.root = .relative ∧ p.parts = [] then "."
  else p.root.text ++ String.intercalate "/" p.parts

def isAbsolute (p : Path) : Bool := p.root ≠ .relative

def child (p : Path) (name : String) : Path := { p with parts := p.parts ++ [name] }

def parent (p : Path) : Path := { p with parts := p.parts.dropLast }

/-- The paths that `p` starts with, from its parent to its root. -/
def parents (p : Path) : List Path :=
  (List.range p.parts.length).reverse.map fun n => { p with parts := p.parts.take n }

/-- A path with a null character names no file. -/
def hasNull (p : Path) : Bool := p.parts.any (·.toList.contains '\x00')

end Path

end ExprLexer
