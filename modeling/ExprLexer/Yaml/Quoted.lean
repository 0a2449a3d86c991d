import ExprLexer.Text.Digits
import ExprLexer.Yaml.Plain

/-!
# Quoted scalars

Between single quotes a quote is written twice and nothing else is special; between double quotes a
backslash escapes. Line breaks fold in both.
-/

namespace ExprLexer.Yaml

def shortEscape? : Char → Option Nat
  | '0' => some 0x00
  | 'a' => some 0x07
  | 'b' => some 0x08
  | 't' | '\t' => some 0x09
  | 'n' => some 0x0A
  | 'v' => some 0x0B
  | 'f' => some 0x0C
  | 'r' => some 0x0D
  | 'e' => some 0x1B
  | ' ' => some 0x20
  | '"' => some 0x22
  | '\\' => some 0x5C
  | '/' => some 0x2F
  | 'N' => some 0x85
  | '_' => some 0xA0
  | 'L' => some 0x2028
  | 'P' => some 0x2029
  | _ => none

def escapeWidth? : Char → Option Nat
  | 'x' => some 2
  | 'u' => some 4
  | 'U' => some 8
  | _ => none

/-- The line breaks behind the first one inside a quoted scalar. -/
def quotedBreaks : Nat → Input → Except Fault (List Char × Input)
  | 0, _ => .error .malformed
  | fuel + 1, i =>
    if atSeparator i.rest then .error .malformed
    else
      let i := i.skipWhile isBlank
      match i.lineBreak? with
      | none => .ok ([], i)
      | some (b, after) =>
        match quotedBreaks fuel after with
        | .ok (bs, last) => .ok (b :: bs, last)
        | .error f => .error f

/-- What blanks and line breaks inside a quoted scalar stand for. -/
def quotedSpaces (fuel : Nat) (i : Input) : Except Fault (List Char × Input) :=
  let (blanks, i) := i.span isBlank
  match i.lineBreak? with
  | some (b, after) =>
    match quotedBreaks fuel after with
    | .ok (more, last) => .ok (fold b more, last)
    | .error f => .error f
  | none => if i.rest = [] then .error .malformed else .ok (blanks, i)

/-- The code points that an escape writes; the input starts behind the backslash. -/
def escape (fuel : Nat) (i : Input) : Except Fault (Text.Points × Input) :=
  match i.rest with
  | [] => .error .malformed
  | c :: rest =>
    match shortEscape? c, escapeWidth? c with
    | some n, _ => .ok ([n], i.step)
    | none, some width =>
      let digits := rest.take width
      if digits.length = width then
        match Text.number? 16 digits with
        | some n =>
          if n < 0x110000 then .ok ([n], i.step.skip width)
          else .error (.noCharacter (0x80000000 ≤ n))
        | none => .error .malformed
      else .error .malformed
    | none, none =>
      match i.lineBreak? with
      | some (_, after) =>
        match quotedBreaks fuel after with
        | .ok (more, last) => .ok (Text.Points.ofChars more, last)
        | .error f => .error f
      | none => .error .malformed

/-- The text of a quoted scalar up to its closing quote, which is passed. -/
def quotedScalar (double : Bool) : Nat → Input → Except Fault (Text.Points × Input)
  | 0, _ => .error .malformed
  | fuel + 1, i =>
    match i.rest with
    | [] => .error .malformed
    | c :: rest =>
      let further : Except Fault (Text.Points × Input) :=
        if isBlank c || isBreak c then
          (quotedSpaces fuel i).map fun (cs, after) => (Text.Points.ofChars cs, after)
        else if double && c = '\\' then escape fuel i.step
        else if !double && c = '\'' then .ok ([0x27], i.step.step)
        else .ok ([c.toNat], i.step)
      if double && c = '"' then .ok ([], i.step)
      else if !double && c = '\'' && rest.head? ≠ some '\'' then .ok ([], i.step)
      else
        match further with
        | .error f => .error f
        | .ok (t, after) =>
          match quotedScalar double fuel after with
          | .ok (more, last) => .ok (t ++ more, last)
          | .error f => .error f

end ExprLexer.Yaml
