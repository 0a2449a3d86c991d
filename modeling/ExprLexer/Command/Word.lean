import ExprLexer.Command.Usage
import ExprLexer.Text.Decimal

/-!
# Words of a command line

Each argument is read against the switches of a command before its neighbours are looked at. A
switch may be cut short as long as no other one starts alike, and text may be attached to it; what
looks like a negative number or holds a space is an operand unless it is a switch.
-/

namespace ExprLexer.Command

inductive Action (σ : Type) where
  /-- The help page is shown and nothing else is done. -/
  | help
  | mark (set : σ → σ)
  /-- The switch takes a text. -/
  | store (set : String → σ → Except UsageError σ)

structure Switch (σ : Type) where
  name : String
  label : String
  action : Action σ

inductive Reading (σ : Type) where
  | operand
  /-- The two dashes behind which everything is an operand. -/
  | separator
  /-- A switch and what is attached to it, with the equals sign if there is one. -/
  | switch (s : Switch σ) (attached : Option (List Char))
  /-- What would be a switch, if there were one of the name. -/
  | unknown

structure Word (σ : Type) where
  text : String
  reading : Reading σ

/-- The text before the first equals sign, and the text from it on. -/
def splitEquals (cs : List Char) : List Char × Option (List Char) :=
  match cs.dropWhile (· ≠ '=') with
  | [] => (cs, none)
  | attached => (cs.takeWhile (· ≠ '='), some attached)

def findSwitch? (switches : List (Switch σ)) (name : List Char) : Option (Switch σ) :=
  switches.find? (·.name.toList = name)

/-- The switches that an argument may be short for. Behind one dash and a letter, text may follow
at once. -/
def candidates (switches : List (Switch σ)) (cs : List Char) :
    List (Switch σ × Option (List Char)) :=
  match cs with
  | '-' :: '-' :: _ =>
    let (stem, attached) := splitEquals cs
    (switches.filter fun s => stem.isPrefixOf s.name.toList).map (·, attached)
  | _ =>
    switches.filterMap fun s =>
      if s.name.toList = cs.take 2 then some (s, some (cs.drop 2))
      else if cs.isPrefixOf s.name.toList then some (s, none)
      else none

/-- A minus sign before digits, perhaps with a point among or before them. One line feed may
follow. -/
def isNegativeNumber : List Char → Bool
  | '-' :: rest =>
    let body := if rest.getLast? = some '\n' then rest.dropLast else rest
    match body.dropWhile Text.isDecimalDigit with
    | [] => body ≠ []
    | '.' :: places => places ≠ [] && places.all Text.isDecimalDigit
    | _ => false
  | _ => false

/-- An argument as it is when it starts with a dash and is no switch by its full name. -/
def readDashed (switches : List (Switch σ)) (argument : String) :
    Except UsageError (Reading σ) :=
  let cs := argument.toList
  match candidates switches cs with
  | _ :: _ :: _ =>
    .error (.ambiguous argument ((candidates switches cs).map (·.1.name)))
  | [(s, attached)] => .ok (.switch s attached)
  | [] => .ok (if isNegativeNumber cs || cs.contains ' ' then .operand else .unknown)

def readArgument (switches : List (Switch σ)) (argument : String) :
    Except UsageError (Reading σ) :=
  let cs := argument.toList
  if cs.head? ≠ some '-' then .ok .operand
  else
    match findSwitch? switches cs with
    | some s => .ok (.switch s none)
    | none =>
      if cs = ['-'] then .ok .operand
      else
        match splitEquals cs with
        | (stem, some attached) =>
          match findSwitch? switches stem with
          | some s => .ok (.switch s (some attached))
          | none => readDashed switches argument
        | _ => readDashed switches argument

def words (switches : List (Switch σ)) : List String → Except UsageError (List (Word σ))
  | [] => .ok []
  | a :: rest =>
    if a = "--" then .ok (⟨a, .separator⟩ :: rest.map fun b => ⟨b, .operand⟩)
    else
      match readArgument switches a with
      | .error e => .error e
      | .ok r => (words switches rest).map (⟨a, r⟩ :: ·)

end ExprLexer.Command
