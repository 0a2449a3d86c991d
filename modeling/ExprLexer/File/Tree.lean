import ExprLexer.File.Refusal

/-!
# File trees

Directories and files without links. A walk goes from directory to directory along the components
of a path and remembers the directories above, so that `..` leads back.
-/

namespace ExprLexer

inductive FileTree where
  | file (bytes : List UInt8)
  | directory (entries : List (String × FileTree))
  deriving Repr

inductive FileKind where
  | file | directory
  deriving DecidableEq, Repr

namespace FileTree

def kind : FileTree → FileKind
  | file _ => .file
  | directory _ => .directory

def entries : FileTree → List (String × FileTree)
  | file _ => []
  | directory es => es

def setEntry (name : String) (node : FileTree) : List (String × FileTree) → List (String × FileTree)
  | [] => [(name, node)]
  | (n, t) :: rest => if n = name then (n, node) :: rest else (n, t) :: setEntry name node rest

/-- The tree with `node` at the place that the names lead to, in directories made where needed. -/
def put (t : FileTree) (names : List String) (node : FileTree) : FileTree :=
  match names with
  | [] => node
  | name :: names =>
    let child := (t.entries.lookup name).getD (directory [])
    directory (setEntry name (child.put names node) t.entries)

/-- A node of a tree and the directories above it, from the nearest to the root. -/
structure Spot where
  node : FileTree
  above : List FileTree
  deriving Repr

/-- The longest name of an entry, in bytes. -/
def maxName : Nat := 255

/-- A path of this many bytes or more is not followed. -/
def maxPath : Nat := 4096

/-- One step from a spot. The root is its own parent. -/
def Spot.step (s : Spot) (name : String) : Except Refusal Spot :=
  match s.node with
  | file _ => .error .notDirectory
  | directory es =>
    if name = ".." then
      match s.above with
      | [] => .ok s
      | d :: ds => .ok ⟨d, ds⟩
    else if maxName < name.utf8ByteSize then .error .nameTooLong
    else
      match es.lookup name with
      | none => .error .notFound
      | some t => .ok ⟨t, s.node :: s.above⟩

def Spot.walk (s : Spot) : List String → Except Refusal Spot
  | [] => .ok s
  | name :: names =>
    match s.step name with
    | .ok t => t.walk names
    | .error r => .error r

end FileTree

structure Files where
  tree : FileTree
  here : List String
  deriving Repr

namespace Files

def workingDirectory (f : Files) : Path := ⟨.slash, f.here⟩

def locate (f : Files) (p : Path) : Except Refusal FileTree.Spot :=
  if FileTree.maxPath ≤ p.toString.utf8ByteSize then .error .nameTooLong
  else FileTree.Spot.walk ⟨f.tree, []⟩ (if p.isAbsolute then p.parts else f.here ++ p.parts)

def kindAt (f : Files) (p : Path) : Except Refusal (Option FileKind) :=
  if p.hasNull then .ok none
  else
    match f.locate p with
    | .ok s => .ok (some s.node.kind)
    | .error r => if r = .notFound ∨ r = .notDirectory then .ok none else .error r

def read (f : Files) (p : Path) : Except ReadError (List UInt8) :=
  if p.hasNull then .error .nullInPath
  else
    match f.locate p with
    | .error r => .error (.refused r)
    | .ok s =>
      match s.node with
      | .file bytes => .ok bytes
      | .directory _ => .error (.refused .isDirectory)

end Files

end ExprLexer
