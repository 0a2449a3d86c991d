import ExprLexer.Text.Digits
import ExprLexer.Yaml.Token

/-!
# Anchors, tags and directives
-/

namespace ExprLexer.Yaml

/-- The name of an anchor or alias; the input starts behind the indicator. -/
def anchorName (i : Input) : Except Fault (List Char × Input) :=
  let (name, i) := i.span isNameChar
  if name = [] then .error .malformed
  else if endsWord i.rest || i.rest.head?.any fun c => "?:,]\x7d%@`".toList.contains c then
    .ok (name, i)
  else .error .malformed

def isTagChar (c : Char) : Bool :=
  c.isAlphanum || "-;/?:@&=+$,_.!~*'()[]".toList.contains c

/-- The bytes of a run of escapes `%XX`. -/
def tagEscapes? : Nat → Input → Option (List UInt8 × Input)
  | 0, _ => none
  | fuel + 1, i =>
    match i.rest with
    | '%' :: a :: b :: _ =>
      match Text.number? 16 [a, b] with
      | some n => (tagEscapes? fuel (i.skip 3)).map fun (bs, last) => (UInt8.ofNat n :: bs, last)
      | none => none
    | '%' :: _ => none
    | _ => some ([], i)

def tagText : Nat → Input → Except Fault (List Char × Input)
  | 0, _ => .error .malformed
  | fuel + 1, i =>
    let (cs, i) := i.span isTagChar
    if i.rest.head? = some '%' then
      match tagEscapes? fuel i with
      | none => .error .malformed
      | some (bytes, i) =>
        match String.fromUTF8? (ByteArray.mk bytes.toArray) with
        | none => .error .malformed
        | some s =>
          match tagText fuel i with
          | .ok (more, last) => .ok (cs ++ s.toList ++ more, last)
          | .error f => .error f
    else .ok (cs, i)

def tagSuffix (fuel : Nat) (i : Input) : Except Fault (List Char × Input) :=
  match tagText fuel i with
  | .ok ([], _) => .error .malformed
  | r => r

/-- A handle: an exclamation mark, or a name between two. -/
def tagHandle (i : Input) : Except Fault (List Char × Input) :=
  match i.rest with
  | '!' :: rest =>
    if rest.head? = some ' ' then .ok (['!'], i.step)
    else
      let (name, after) := i.step.span isNameChar
      match after.rest with
      | '!' :: _ => .ok ('!' :: (name ++ ['!']), after.step)
      | _ => .error .malformed
  | _ => .error .malformed

/-- Whether a second exclamation mark stands before the end of the word. -/
def hasHandle (rest : List Char) : Bool :=
  (rest.dropWhile fun c => !(c = '!' || c = ' ' || isBreak c)).head? = some '!'

/-- A tag; the input starts at its exclamation mark. -/
def tagName (fuel : Nat) (i : Input) : Except Fault (TagName × Input) :=
  let read : Except Fault (TagName × Input) :=
    match i.rest.drop 1 with
    | '<' :: _ =>
      match tagSuffix fuel i.step.step with
      | .ok (suffix, after) =>
        if after.rest.head? = some '>' then .ok (⟨none, suffix⟩, after.step)
        else .error .malformed
      | .error f => .error f
    | rest =>
      if endsWord rest then .ok (⟨none, ['!']⟩, i.step)
      else
        let handle := if hasHandle rest then tagHandle i else .ok (['!'], i.step)
        match handle with
        | .error f => .error f
        | .ok (handle, after) =>
          match tagSuffix fuel after with
          | .ok (suffix, last) => .ok (⟨some handle, suffix⟩, last)
          | .error f => .error f
  match read with
  | .ok (name, after) => if endsEntry after.rest then .ok (name, after) else .error .malformed
  | .error f => .error f

def versionNumber (i : Input) : Except Fault (Nat × Input) :=
  let (digits, after) := i.span Char.isDigit
  match Text.number? 10 digits with
  | some n =>
    if maxDigits < digits.length then .error (.tooManyDigits digits.length) else .ok (n, after)
  | none => .error .malformed

/-- What a directive says; the input starts behind its name. -/
def directiveValue (name : List Char) (fuel : Nat) (i : Input) :
    Except Fault (Directive × Input) :=
  if name = "YAML".toList then do
    let (major, i) ← versionNumber (i.skipWhile (· = ' '))
    if i.rest.head? = some '.' then
      let (_, i) ← versionNumber i.step
      if endsEntry i.rest then .ok (.version major, i) else .error .malformed
    else .error .malformed
  else if name = "TAG".toList then do
    let (handle, i) ← tagHandle (i.skipWhile (· = ' '))
    if i.rest.head? = some ' ' then
      let (expansion, i) ← tagSuffix fuel (i.skipWhile (· = ' '))
      if endsEntry i.rest then .ok (.handle handle expansion, i) else .error .malformed
    else .error .malformed
  else .ok (.other, i.skipWhile (!isBreak ·))

/-- A directive and the rest of its line; the input starts behind the percent sign. -/
def directive (fuel : Nat) (i : Input) : Except Fault (Directive × Input) := do
  let (name, i) := i.span isNameChar
  if name = [] || !endsEntry i.rest then .error .malformed
  else
    let (d, i) ← directiveValue name fuel i
    let i := i.skipComment
    if endsLine i.rest then .ok (d, i.lineBreak?.elim i (·.2)) else .error .malformed

end ExprLexer.Yaml
