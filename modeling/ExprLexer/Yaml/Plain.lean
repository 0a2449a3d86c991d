import ExprLexer.Yaml.Input

/-!
# Plain scalars

Text without quotes. It ends at a colon or a comment that stands apart, at an indicator of the
surrounding flow collection, or where a further line is not indented. Single line breaks inside it
fold into a space.
-/

namespace ExprLexer.Yaml

def startsPlain (flow : Bool) : List Char → Bool
  | [] => false
  | c :: rest =>
    !(isBlank c || isBreak c || "-?:,[]\x7b\x7d#&*!|>'\"%@`".toList.contains c)
      || (!endsWord rest && (c = '-' || (!flow && (c = '?' || c = ':'))))

/-- Whether a plain scalar ends before the character `c`, which `rest` follows. -/
def endsPlain (flow : Bool) (c : Char) (rest : List Char) : Bool :=
  isBlank c || isBreak c
    || (c = ':' && (endsWord rest
        || (flow && rest.head?.any fun d => [',', '[', ']', '\x7b', '\x7d'].contains d)))
    || (flow && [',', '?', '[', ']', '\x7b', '\x7d'].contains c)

/-- The characters of a plain scalar up to the next blank or its end. -/
def plainChunk (flow : Bool) : List Char → Mark → List Char × Input
  | [], m => ([], ⟨[], m⟩)
  | c :: rest, m =>
    if endsPlain flow c rest then ([], ⟨c :: rest, m⟩)
    else
      let (cs, i) := plainChunk flow rest (m.next c rest)
      (c :: cs, i)

/-- The further line breaks behind the first one, unless the document ends there. -/
def plainBreaks : Nat → Input → Option (List Char) × Input
  | 0, i => (some [], i)
  | fuel + 1, i =>
    let i := i.skipWhile (· = ' ')
    match i.lineBreak? with
    | none => (some [], i)
    | some (b, after) =>
      if atSeparator after.rest then (none, after)
      else
        let (bs, last) := plainBreaks fuel after
        (bs.map (b :: ·), last)

/-- The text into which a line break and the breaks behind it fold. -/
def fold (first : Char) (more : List Char) : List Char :=
  if first ≠ '\n' then first :: more else if more = [] then [' '] else more

/-- What stands between two chunks of a plain scalar. -/
structure Spaces where
  text : List Char
  crossed : Bool
  input : Input
  deriving DecidableEq, Repr

def plainSpaces (fuel : Nat) (i : Input) : Spaces :=
  let (blanks, i) := i.span (· = ' ')
  match i.lineBreak? with
  | none => ⟨blanks, false, i⟩
  | some (b, after) =>
    if atSeparator after.rest then ⟨[], true, after⟩
    else
      match plainBreaks fuel after with
      | (some more, last) => ⟨fold b more, true, last⟩
      | (none, last) => ⟨[], true, last⟩

/-- The text of a plain scalar from a chunk on, whether the last spaces crossed a line, and the
input behind. `crossed` is the answer where no chunk follows; lines are indented by `indent`. -/
def plainFrom (flow : Bool) (indent : Nat) : Nat → Bool → Input → List Char × Bool × Input
  | 0, crossed, i => ([], crossed, i)
  | fuel + 1, crossed, i =>
    if i.rest.head? = some '#' then ([], crossed, i)
    else
      let (chunk, after) := plainChunk flow i.rest i.mark
      if chunk = [] then ([], crossed, i)
      else
        let spaces := plainSpaces fuel after
        if spaces.text = [] || spaces.input.rest.head? = some '#'
            || (!flow && spaces.input.mark.column < indent) then
          (chunk, spaces.crossed, spaces.input)
        else
          let (more, crossed, last) := plainFrom flow indent fuel spaces.crossed spaces.input
          (chunk ++ (if more = [] then [] else spaces.text ++ more), crossed, last)

end ExprLexer.Yaml
