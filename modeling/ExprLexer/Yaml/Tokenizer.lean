import ExprLexer.Yaml.Block
import ExprLexer.Yaml.Property
import ExprLexer.Yaml.Quoted

/-!
# Reading tokens

Indentation opens and closes block collections. A scalar, an alias, a property or a whole flow
collection may turn out to be the key of a mapping; where it starts is kept as a candidate, on each
level of flow collections one, until a colon confirms it or its line ends.
-/

namespace ExprLexer.Yaml

/-- Where a key may have started. -/
structure Candidate where
  /-- The number of tokens before it. -/
  number : Nat
  /-- Whether it must turn out to be a key, as the line starts at the indentation of a mapping. -/
  required : Bool
  mark : Mark
  deriving DecidableEq, Repr

structure Tokenizer where
  input : Input
  /-- The tokens so far, the last one first, and their number. -/
  tokens : List Token
  count : Nat
  /-- The columns of the open block collections, the innermost first. -/
  indents : List Nat
  /-- Whether a key may start here. -/
  keyAllowed : Bool
  candidate : Option Candidate
  /-- The candidates of the levels around it, one for each open flow collection. -/
  outer : List (Option Candidate)
  deriving DecidableEq, Repr

namespace Tokenizer

def start (cs : List Char) : Tokenizer := ⟨.start cs, [], 0, [], true, none, []⟩

def inFlow (t : Tokenizer) : Bool := !t.outer.isEmpty

def column (t : Tokenizer) : Nat := t.input.mark.column

def push (t : Tokenizer) (token : Token) : Tokenizer :=
  { t with tokens := token :: t.tokens, count := t.count + 1 }

/-- Put a token before all tokens from number `n` on. -/
def insertAt (t : Tokenizer) (n : Nat) (token : Token) : Tokenizer :=
  let k := t.count - n
  { t with tokens := t.tokens.take k ++ token :: t.tokens.drop k, count := t.count + 1 }

/-! ### Space between tokens -/

/-- Pass spaces, comments and line breaks. A line break outside flow collections allows a key. -/
def skipSpace : Nat → Tokenizer → Tokenizer
  | 0, t => t
  | fuel + 1, t =>
    let i := t.input.skipComment
    match i.lineBreak? with
    | some (_, after) =>
      skipSpace fuel { t with input := after, keyAllowed := t.keyAllowed || !t.inFlow }
    | none => { t with input := i }

/-- A byte order mark at the very start is no part of the document. -/
def skipByteOrderMark (t : Tokenizer) : Tokenizer :=
  if t.input.mark.index = 0 ∧ t.input.rest.head? = some '\ufeff' then
    { t with input := t.input.step }
  else t

/-! ### Candidates -/

/-- A candidate lasts for its line, and for 1024 characters at most. -/
def isStale (m : Mark) (c : Candidate) : Bool :=
  c.mark.line ≠ m.line || c.mark.index + 1024 < m.index

def dropStale (t : Tokenizer) : Except Fault Tokenizer :=
  let stale (c : Option Candidate) : Bool := c.any (isStale t.input.mark)
  let all := t.candidate :: t.outer
  if all.any fun c => stale c && c.any (·.required) then .error .malformed
  else
    .ok { t with
      candidate := if stale t.candidate then none else t.candidate
      outer := t.outer.map fun c => if stale c then none else c }

def dropCandidate (t : Tokenizer) : Except Fault Tokenizer :=
  if t.candidate.any (·.required) then .error .malformed else .ok { t with candidate := none }

/-- Take the present place as a candidate, if a key may start here. -/
def saveCandidate (t : Tokenizer) : Except Fault Tokenizer :=
  if t.keyAllowed then
    match t.dropCandidate with
    | .error f => .error f
    | .ok t =>
      let required := !t.inFlow && t.indents.head? = some t.column
      .ok { t with candidate := some ⟨t.count, required, t.input.mark⟩ }
  else .ok t

/-! ### Indentation -/

/-- Close the block collections that are indented by more than `column`, or all of them. -/
def unwind (t : Tokenizer) (column : Option Nat) : Tokenizer :=
  if t.inFlow then t
  else
    let deeper (n : Nat) : Bool := column.all (· < n)
    let closed := t.indents.takeWhile deeper
    { t with
      tokens := closed.map (fun _ => Token.blockEnd) ++ t.tokens
      count := t.count + closed.length
      indents := t.indents.dropWhile deeper }

def opens (t : Tokenizer) (column : Nat) : Bool := t.indents.head?.all (· < column)

def indent (t : Tokenizer) (column : Nat) : Tokenizer := { t with indents := column :: t.indents }

/-- The column from which the lines of a scalar are indented. -/
def least (t : Tokenizer) : Nat := t.indents.head?.elim 0 (· + 1)

/-! ### Tokens -/

def indicator (t : Tokenizer) (width : Nat) (token : Token) : Tokenizer :=
  { t with input := t.input.skip width }.push token

/-- A token that ends all block structure: a directive or a mark between documents. -/
def documentToken (t : Tokenizer) (read : Except Fault (Token × Input)) :
    Except Fault Tokenizer := do
  let t ← (t.unwind none).dropCandidate
  let (token, input) ← read
  .ok ({ t with input, keyAllowed := false }.push token)

def openFlow (t : Tokenizer) (token : Token) : Except Fault Tokenizer := do
  let t ← t.saveCandidate
  let t := { t with outer := t.candidate :: t.outer, candidate := none, keyAllowed := true }
  .ok (t.indicator 1 token)

def closeFlow (t : Tokenizer) (token : Token) : Except Fault Tokenizer := do
  let t ← t.dropCandidate
  let t := { t with candidate := t.outer.head?.join, outer := t.outer.drop 1, keyAllowed := false }
  .ok (t.indicator 1 token)

def flowEntry (t : Tokenizer) : Except Fault Tokenizer := do
  let t ← t.dropCandidate
  .ok ({ t with keyAllowed := true }.indicator 1 .flowEntry)

/-- Open a block collection at the present column, unless it is open. -/
def openBlock (t : Tokenizer) (token : Token) : Except Fault Tokenizer :=
  if t.inFlow then .ok t
  else if !t.keyAllowed then .error .malformed
  else if t.opens t.column then .ok ((t.indent t.column).push token)
  else .ok t

def blockEntry (t : Tokenizer) : Except Fault Tokenizer := do
  let t ← t.openBlock .blockSequenceStart
  let t ← { t with keyAllowed := true }.dropCandidate
  .ok (t.indicator 1 .blockEntry)

def key (t : Tokenizer) : Except Fault Tokenizer := do
  let t ← t.openBlock .blockMappingStart
  let t ← { t with keyAllowed := !t.inFlow }.dropCandidate
  .ok (t.indicator 1 .key)

/-- A colon: it makes a key of the candidate, if there is one. -/
def value (t : Tokenizer) : Except Fault Tokenizer :=
  match t.candidate with
  | some c =>
    let t := { t with candidate := none, keyAllowed := false }.insertAt c.number .key
    let t :=
      if !t.inFlow && t.opens c.mark.column then
        (t.indent c.mark.column).insertAt c.number .blockMappingStart
      else t
    .ok (t.indicator 1 .value)
  | none => do
    let t ← t.openBlock .blockMappingStart
    .ok ({ t with keyAllowed := !t.inFlow }.indicator 1 .value)

def starter (t : Tokenizer) (read : Except Fault (Token × Input)) : Except Fault Tokenizer := do
  let t ← t.saveCandidate
  let (token, input) ← read
  .ok ({ t with input, keyAllowed := false }.push token)

def quoted (t : Tokenizer) (fuel : Nat) (double : Bool) : Except Fault Tokenizer :=
  t.starter ((quotedScalar double fuel t.input.step).map fun (text, i) => (.scalar text false, i))

def block (t : Tokenizer) (fuel : Nat) (folded : Bool) : Except Fault Tokenizer := do
  let t ← t.dropCandidate
  let (text, input) ← blockScalar folded t.least fuel t.input.step
  .ok ({ t with input, keyAllowed := true }.push (.scalar (Text.Points.ofChars text) false))

def plain (t : Tokenizer) (fuel : Nat) : Except Fault Tokenizer := do
  let t ← t.saveCandidate
  let (text, crossed, input) := plainFrom t.inFlow t.least fuel false t.input
  .ok ({ t with input, keyAllowed := crossed }.push (.scalar (Text.Points.ofChars text) true))

/-- The next token, which starts at the first character. -/
def token (t : Tokenizer) (fuel : Nat) : Except Fault Tokenizer :=
  let i := t.input
  let atStart := i.mark.column = 0
  let plainOr (here : Bool) (read : Except Fault Tokenizer) : Except Fault Tokenizer :=
    if here then read
    else if startsPlain t.inFlow i.rest then t.plain fuel else .error .malformed
  match i.rest with
  | [] => .ok t
  | c :: rest =>
    if c = '%' && atStart then
      t.documentToken ((directive fuel i.step).map fun (d, i) => (.directive d, i))
    else if atStart && atSeparator i.rest then
      t.documentToken (.ok (if c = '-' then .documentStart else .documentEnd, i.skip 3))
    else
      match c with
      | '[' => t.openFlow .flowSequenceStart
      | '\x7b' => t.openFlow .flowMappingStart
      | ']' => t.closeFlow .flowSequenceEnd
      | '\x7d' => t.closeFlow .flowMappingEnd
      | ',' => t.flowEntry
      | '-' => plainOr (endsWord rest) t.blockEntry
      | '?' => plainOr (t.inFlow || endsWord rest) t.key
      | ':' => plainOr (t.inFlow || endsWord rest) t.value
      | '*' => t.starter ((anchorName i.step).map fun (name, i) => (.alias name, i))
      | '&' => t.starter ((anchorName i.step).map fun (name, i) => (.anchor name, i))
      | '!' => t.starter ((tagName fuel i).map fun (name, i) => (.tag name, i))
      | '|' => plainOr (!t.inFlow) (t.block fuel false)
      | '>' => plainOr (!t.inFlow) (t.block fuel true)
      | '\'' => t.quoted fuel false
      | '"' => t.quoted fuel true
      | _ => plainOr false (.error .malformed)

/-- Pass to the next token and close what ends before it. -/
def advance (t : Tokenizer) (fuel : Nat) : Except Fault Tokenizer := do
  let t ← (t.skipByteOrderMark.skipSpace fuel).dropStale
  .ok (t.unwind (some t.column))

def run : Nat → Tokenizer → List Token
  | 0, t => .fault .malformed :: t.tokens
  | fuel + 1, t =>
    match t.advance fuel with
    | .error f => .fault f :: t.tokens
    | .ok t =>
      if t.input.rest = [] then
        match (t.unwind none).dropCandidate with
        | .error f => .fault f :: t.tokens
        | .ok t => .streamEnd :: t.tokens
      else
        match t.token fuel with
        | .error f => .fault f :: t.tokens
        | .ok t => run fuel t

end Tokenizer

/-- The tokens of a text. Characters that no document may hold make it a fault as a whole. -/
def tokens (cs : List Char) : List Token :=
  if cs.all isAllowed then ((Tokenizer.start cs).run (cs.length + 2)).reverse
  else [.fault .malformed]

end ExprLexer.Yaml
