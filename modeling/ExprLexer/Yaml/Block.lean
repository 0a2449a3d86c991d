import ExprLexer.Yaml.Input

/-!
# Block scalars

Indented text behind `|` or `>`. A header may give the indentation and say what becomes of the line
breaks at the end.
-/

namespace ExprLexer.Yaml

/-- What becomes of the line breaks at the end of a block scalar. -/
inductive Chomping where
  | strip | clip | keep
  deriving DecidableEq, Repr

def Chomping.ofChar? : Char → Option Chomping
  | '+' => some .keep
  | '-' => some .strip
  | _ => none

/-- The header of a block scalar: chomping and indentation in either order. -/
def blockHeader (i : Input) : Except Fault (Chomping × Option Nat × Input) :=
  let chomping? (i : Input) : Option Chomping := i.rest.head?.bind Chomping.ofChar?
  let digit? (i : Input) : Option Nat :=
    i.rest.head?.bind fun c => if c.isDigit then some (c.toNat - 0x30) else none
  let (chomping, indent, i) :=
    match chomping? i, digit? i with
    | some c, _ =>
      match digit? i.step with
      | some d => (c, some d, i.step.step)
      | none => (c, none, i.step)
    | none, some d =>
      match chomping? i.step with
      | some c => (c, some d, i.step.step)
      | none => (.clip, some d, i.step)
    | none, none => (.clip, none, i)
  if indent = some 0 || !endsEntry i.rest then .error .malformed
  else
    let i := i.skipComment
    if !endsLine i.rest then .error .malformed
    else .ok (chomping, indent, (i.lineBreak?.elim i (·.2)))

/-- Empty lines before the text when the indentation is not given: their breaks, the greatest
column seen, and the input behind. -/
def detectIndent : Nat → Input → Nat → List Char × Nat × Input
  | 0, i, widest => ([], widest, i)
  | fuel + 1, i, widest =>
    match i.lineBreak? with
    | some (b, after) =>
      let (bs, widest, last) := detectIndent fuel after widest
      (b :: bs, widest, last)
    | none =>
      if i.rest.head? = some ' ' then detectIndent fuel i.step (max widest i.step.mark.column)
      else ([], widest, i)

/-- The input behind at most the indentation. -/
def skipIndent (indent : Nat) : Nat → Input → Input
  | 0, i => i
  | fuel + 1, i =>
    if i.mark.column < indent ∧ i.rest.head? = some ' ' then skipIndent indent fuel i.step else i

/-- Empty lines under a known indentation. -/
def blockBreaks (indent : Nat) : Nat → Input → List Char × Input
  | 0, i => ([], i)
  | fuel + 1, i =>
    let i := skipIndent indent indent i
    match i.lineBreak? with
    | some (b, after) =>
      let (bs, last) := blockBreaks indent fuel after
      (b :: bs, last)
    | none => ([], i)

def atBlockLine (indent : Nat) (i : Input) : Bool := i.mark.column = indent && i.rest ≠ []

/-- The lines of a block scalar: the text, the last line break and the empty lines behind it. -/
def blockLines (folded : Bool) (indent : Nat) :
    Nat → List Char → Input → List Char × List Char × List Char × Input
  | 0, breaks, i => ([], [], breaks, i)
  | fuel + 1, breaks, i =>
    let spaced (i : Input) : Bool := i.rest.head?.any isBlank
    let (line, after) := i.span (!isBreak ·)
    let (lineBreak, after) := match after.lineBreak? with
      | some (b, after) => ([b], after)
      | none => ([], after)
    let (more, next) := blockBreaks indent fuel after
    let head := breaks ++ line
    if atBlockLine indent next then
      let joint :=
        if folded && lineBreak = ['\n'] && !spaced i && !spaced next then
          (if more = [] then [' '] else [])
        else lineBreak
      let (text, lastBreak, final, last) := blockLines folded indent fuel more next
      (head ++ joint ++ text, lastBreak, final, last)
    else (head, lineBreak, more, next)

/-- A block scalar behind its indicator, inside blocks that are indented by less than `least`. -/
def blockScalar (folded : Bool) (least fuel : Nat) (i : Input) :
    Except Fault (List Char × Input) :=
  match blockHeader i with
  | .error f => .error f
  | .ok (chomping, given, i) =>
    let least := max 1 least
    let (indent, breaks, i) :=
      match given with
      | none =>
        let (bs, widest, i) := detectIndent fuel i 0
        (max least widest, bs, i)
      | some d =>
        let indent := least + d - 1
        let (bs, i) := blockBreaks indent fuel i
        (indent, bs, i)
    let (text, lineBreak, final, last) :=
      if atBlockLine indent i then blockLines folded indent fuel breaks i
      else ([], [], breaks, i)
    .ok (match chomping with
      | .strip => text
      | .clip => text ++ lineBreak
      | .keep => text ++ lineBreak ++ final, last)

end ExprLexer.Yaml
