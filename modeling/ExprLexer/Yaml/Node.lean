import ExprLexer.Yaml.Tag
import ExprLexer.Yaml.Tokenizer

/-!
# Nodes

A document as a tree of tagged nodes, read from its tokens. Aliases stand for the nodes that they
name. An alias inside its own node makes no tree, and a key `=` is another one when its mapping has
been built. Aliases of such nodes end the reading (`Fault.entangled`), and nothing is said of their
documents. The functions take the rest of the tokens and give back what they leave, and the
number of tokens is fuel enough for twice the depth of the tree. The depth has no limit here: a
reader's stack is taken to be deep enough.
-/

namespace ExprLexer.Yaml

inductive Node where
  | scalar (tag : Tag) (text : Text.Points)
  | sequence (tag : Tag) (items : List Node)
  | mapping (tag : Tag) (entries : List (Node × Node))
  deriving Repr

namespace Node

def tag : Node → Tag
  | scalar tag _ | sequence tag _ | mapping tag _ => tag

def withTag (tag : Tag) : Node → Node
  | scalar _ text => scalar tag text
  | sequence _ items => sequence tag items
  | mapping _ entries => mapping tag entries

def items? : Node → Option (List Node)
  | sequence _ items => some items
  | _ => none

def entries? : Node → Option (List (Node × Node))
  | mapping _ entries => some entries
  | _ => none

mutual

/-- Whether a key `=`, or another node of its type, stands in the node. -/
def holdsValue : Node → Bool
  | scalar tag _ => tag = .value
  | sequence tag items => tag = .value || itemsHoldValue items
  | mapping tag entries => tag = .value || entriesHoldValue entries

def itemsHoldValue : List Node → Bool
  | [] => false
  | x :: xs => holdsValue x || itemsHoldValue xs

def entriesHoldValue : List (Node × Node) → Bool
  | [] => false
  | (k, v) :: rest => holdsValue k || holdsValue v || entriesHoldValue rest

end

/-- The node of a scalar that is left out. -/
def empty : Node := scalar .null []

/-- Where reading stands: the tokens to come, the anchors so far and the meaning of handles. -/
structure Stream where
  tokens : List Token
  anchors : List (List Char × Option Node)
  handles : List (List Char × List Char)

namespace Stream

def next (s : Stream) : Token := s.tokens.headD .streamEnd

def pass (s : Stream) : Stream := { s with tokens := s.tokens.drop 1 }

/-- The fault at the next token, if it is not one that fits. -/
def refuse (s : Stream) : Fault :=
  match s.next with
  | .fault f => f
  | _ => .malformed

def expect (s : Stream) (token : Token) : Except Fault Stream :=
  if s.next = token then .ok s.pass else .error s.refuse

end Stream

/-- The meaning of handles that no directive gives. -/
def defaultHandles : List (List Char × List Char) := [(['!'], ['!']), (['!', '!'], Tag.root)]

abbrev Read (α : Type) := Except Fault (α × Stream)

/-- The anchor and the tag before a node, in either order. -/
def properties (s : Stream) : Option (List Char) × Option TagName × Stream :=
  match s.next with
  | .anchor a =>
    match s.pass.next with
    | .tag t => (some a, some t, s.pass.pass)
    | _ => (some a, none, s.pass)
  | .tag t =>
    match s.pass.next with
    | .anchor a => (some a, some t, s.pass.pass)
    | _ => (none, some t, s.pass)
  | _ => (none, none, s)

def resolve (s : Stream) (t : TagName) : Except Fault (List Char) :=
  match t.handle with
  | none => .ok t.suffix
  | some h =>
    match s.handles.find? (·.1 == h) with
    | some (_, expansion) => .ok (expansion ++ t.suffix)
    | none => .error .malformed

/-- Keep an anchor for the node that follows. Its node is not known yet. -/
def openAnchor (s : Stream) : Option (List Char) → Except Fault Stream
  | none => .ok s
  | some a =>
    if s.anchors.any (·.1 == a) then .error .malformed
    else .ok { s with anchors := (a, none) :: s.anchors }

def closeAnchor (anchor : Option (List Char)) (node : Node) (s : Stream) : Node × Stream :=
  match anchor with
  | none => (node, s)
  | some a =>
    (node, { s with anchors := s.anchors.map fun e => if e.1 == a then (a, some node) else e })

/-- The tag of a scalar: a given one, or by its text if it is plain or tagged by `!` alone. -/
def scalarTag (name : Option (List Char)) (text : Text.Points) (plain : Bool) : Tag :=
  if (name = none && plain) || name = some ['!'] then
    match Text.Points.toChars? text with
    | some cs => Tag.ofPlain cs
    | none => .str
  else
    match name with
    | none => .str
    | some n => .ofName n

/-- The tag of a collection, which is `usual` unless another one is given. -/
def collectionTag (name : Option (List Char)) (usual : Tag) : Tag :=
  match name with
  | none => usual
  | some ['!'] => usual
  | some n => .ofName n

/-- Where a node stands. In the first place of a mapping entry a sequence need not be indented. -/
inductive Place where
  | flow | block | entry
  deriving DecidableEq, Repr

def hasMerge (n : Node) : Bool := (n.entries?.getD []).any (·.1.tag = .merge)

/-- A sequence of entries takes mappings as they stand, and a merge key is gone from a mapping that
was built elsewhere before. Anchors let a mapping stand in two places. -/
def sequenceOf (name : Option (List Char)) (items : List Node) (s : Stream) : Read Node :=
  let tag := collectionTag name .seq
  if (tag = .omap || tag = .pairs) && s.anchors ≠ [] && items.any hasMerge then .error .entangled
  else .ok (.sequence tag items, s)

mutual

def node (place : Place) : Nat → Stream → Read Node
  | 0, s => .error s.refuse
  | fuel + 1, s =>
    match s.next with
    | .alias a =>
      match s.anchors.find? (·.1 == a) with
      | some (_, some n) => if n.holdsValue then .error .entangled else .ok (n, s.pass)
      | some (_, none) => .error .entangled
      | none => .error .malformed
    | _ =>
      let (anchor, tagName, s) := properties s
      match (match tagName with
        | none => Except.ok none
        | some t => (resolve s t).map some) with
      | .error f => .error f
      | .ok name =>
        match openAnchor s anchor with
        | .error f => .error f
        | .ok s =>
          match content place fuel name (anchor.isSome || tagName.isSome) s with
          | .error f => .error f
          | .ok (n, s) => .ok (closeAnchor anchor n s)

def content (place : Place) : Nat → Option (List Char) → Bool → Stream → Read Node
  | 0, _, _, s => .error s.refuse
  | fuel + 1, name, marked, s =>
    let sequence (r : Read (List Node)) : Read Node :=
      r.bind fun (xs, s) => sequenceOf name xs s
    let mapping (r : Read (List (Node × Node))) : Read Node :=
      r.map fun (es, s) => (.mapping (collectionTag name .map) es, s)
    match s.next, place with
    | .blockEntry, .entry => sequence (looseEntries fuel s)
    | .scalar text plain, _ => .ok (.scalar (scalarTag name text plain) text, s.pass)
    | .flowSequenceStart, _ => sequence (flowItems fuel true s.pass)
    | .flowMappingStart, _ => mapping (flowEntries fuel true s.pass)
    | .blockSequenceStart, .block | .blockSequenceStart, .entry =>
      sequence (blockItems fuel s.pass)
    | .blockMappingStart, .block | .blockMappingStart, .entry =>
      mapping (blockEntries fuel s.pass)
    | _, _ =>
      if marked then
        let tag := scalarTag name [] true
        .ok (.scalar tag [], s)
      else .error s.refuse

/-- The items of a block sequence up to its end, which is passed. -/
def blockItems : Nat → Stream → Read (List Node)
  | 0, s => .error s.refuse
  | fuel + 1, s =>
    match s.next with
    | .blockEntry =>
      let item : Read Node :=
        match s.pass.next with
        | .blockEntry | .blockEnd => .ok (empty, s.pass)
        | _ => node .block fuel s.pass
      match item with
      | .error f => .error f
      | .ok (x, s) => (blockItems fuel s).map fun (xs, s) => (x :: xs, s)
    | _ => (s.expect .blockEnd).map ([], ·)

/-- The items of a sequence that is not indented, up to the first token that is none of it. -/
def looseEntries : Nat → Stream → Read (List Node)
  | 0, s => .error s.refuse
  | fuel + 1, s =>
    match s.next with
    | .blockEntry =>
      let item : Read Node :=
        match s.pass.next with
        | .blockEntry | .key | .value | .blockEnd => .ok (empty, s.pass)
        | _ => node .block fuel s.pass
      match item with
      | .error f => .error f
      | .ok (x, s) => (looseEntries fuel s).map fun (xs, s) => (x :: xs, s)
    | .fault f => .error f
    | _ => .ok ([], s)

def entryNode : Nat → Stream → Read Node
  | 0, s => .error s.refuse
  | fuel + 1, s =>
    match s.next with
    | .key | .value | .blockEnd => .ok (empty, s)
    | _ => node .entry fuel s

def blockEntries : Nat → Stream → Read (List (Node × Node))
  | 0, s => .error s.refuse
  | fuel + 1, s =>
    match s.next with
    | .key =>
      match entryNode fuel s.pass with
      | .error f => .error f
      | .ok (k, s) =>
        let read : Read Node :=
          match s.next with
          | .value => entryNode fuel s.pass
          | .fault f => .error f
          | _ => .ok (empty, s)
        match read with
        | .error f => .error f
        | .ok (v, s) => (blockEntries fuel s).map fun (es, s) => ((k, v) :: es, s)
    | _ => (s.expect .blockEnd).map ([], ·)

def flowItems : Nat → Bool → Stream → Read (List Node)
  | 0, _, s => .error s.refuse
  | fuel + 1, first, s =>
    if s.next = .flowSequenceEnd then .ok ([], s.pass)
    else
      match (if first then .ok s else s.expect .flowEntry) with
      | .error f => .error f
      | .ok s =>
        match s.next with
        | .flowSequenceEnd => .ok ([], s.pass)
        | .key =>
          match flowKey fuel .flowSequenceEnd s.pass with
          | .error f => .error f
          | .ok (k, s) =>
            match flowValue fuel .flowSequenceEnd s with
            | .error f => .error f
            | .ok (v, s) =>
              (flowItems fuel false s).map fun (xs, s) => (.mapping .map [(k, v)] :: xs, s)
        | _ =>
          match node .flow fuel s with
          | .error f => .error f
          | .ok (x, s) => (flowItems fuel false s).map fun (xs, s) => (x :: xs, s)

/-- A key in a flow collection that `closing` ends. -/
def flowKey : Nat → Token → Stream → Read Node
  | 0, _, s => .error s.refuse
  | fuel + 1, closing, s =>
    if s.next = .value || s.next = .flowEntry || s.next = closing then .ok (empty, s)
    else node .flow fuel s

def flowValue : Nat → Token → Stream → Read Node
  | 0, _, s => .error s.refuse
  | fuel + 1, closing, s =>
    match s.next with
    | .value =>
      if s.pass.next = .flowEntry || s.pass.next = closing then .ok (empty, s.pass)
      else node .flow fuel s.pass
    | .fault f => .error f
    | _ => .ok (empty, s)

def flowEntries : Nat → Bool → Stream → Read (List (Node × Node))
  | 0, _, s => .error s.refuse
  | fuel + 1, first, s =>
    if s.next = .flowMappingEnd then .ok ([], s.pass)
    else
      match (if first then .ok s else s.expect .flowEntry) with
      | .error f => .error f
      | .ok s =>
        match s.next with
        | .flowMappingEnd => .ok ([], s.pass)
        | .key =>
          match flowKey fuel .flowMappingEnd s.pass with
          | .error f => .error f
          | .ok (k, s) =>
            match flowValue fuel .flowMappingEnd s with
            | .error f => .error f
            | .ok (v, s) => (flowEntries fuel false s).map fun (es, s) => ((k, v) :: es, s)
        | _ =>
          match node .flow fuel s with
          | .error f => .error f
          | .ok (k, s) => (flowEntries fuel false s).map fun (es, s) => ((k, empty) :: es, s)

end

/-! ### Documents -/

/-- The directives before a document: whether a version was given, and the handles. -/
def directives : Nat → Bool → List (List Char × List Char) → Stream →
    Read (List (List Char × List Char))
  | 0, _, _, s => .error s.refuse
  | fuel + 1, versioned, handles, s =>
    match s.next with
    | .directive (.version major) =>
      if versioned || major ≠ 1 then .error .malformed
      else directives fuel true handles s.pass
    | .directive (.handle h expansion) =>
      if handles.any (·.1 == h) then .error .malformed
      else directives fuel versioned ((h, expansion) :: handles) s.pass
    | .directive .other => directives fuel versioned handles s.pass
    | _ => .ok (handles ++ defaultHandles, s)

/-- Pass the marks that end documents. -/
def skipEnds : List Token → List Token
  | .documentEnd :: rest => skipEnds rest
  | ts => ts

/-- Nothing but the end of the stream may follow a document. -/
def finish (s : Stream) : Except Fault Unit :=
  ({ s with tokens := skipEnds s.tokens }.expect .streamEnd).map fun _ => ()

/-- The single document of a stream of tokens, unless the stream is empty. -/
def ofTokens (tokens : List Token) : Except Fault (Option Node) :=
  let fuel := 3 * tokens.length + 3
  let s : Stream := ⟨tokens, [], defaultHandles⟩
  let explicit : Except Fault (Option Node) := do
    let (handles, s) ← directives fuel false [] s
    let s ← s.expect .documentStart
    let s := { s with handles }
    match s.next with
    | .directive _ | .documentStart | .documentEnd | .streamEnd =>
      finish s
      .ok (some empty)
    | _ =>
      let (n, s) ← node .block fuel s
      finish s
      .ok (some n)
  match s.next with
  | .streamEnd => .ok none
  | .directive _ | .documentStart => explicit
  | _ => do
    let (n, s) ← node .block fuel s
    finish s
    .ok (some n)

end Node

end ExprLexer.Yaml
