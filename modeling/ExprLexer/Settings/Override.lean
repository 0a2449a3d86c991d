import ExprLexer.Problem
import ExprLexer.Settings.Basic
import ExprLexer.Settings.Error

/-!
# Overrides

Settings with some fields replaced. A profile holds a value of any type for each field, so that
fields can be named and replaced without regard to what the values mean; overrides of settings
proper have the types of the fields.
-/

namespace ExprLexer

inductive Field where
  | outputFormat | color | strict | showDiagnostics | encoding
  deriving DecidableEq, Repr

namespace Field

def all : List Field := [outputFormat, color, strict, showDiagnostics, encoding]

def name : Field → String
  | outputFormat => "output_format"
  | color => "color"
  | strict => "strict"
  | showDiagnostics => "show_diagnostics"
  | encoding => "encoding"

def ofName? (s : String) : Option Field := all.find? (·.name == s)

end Field

abbrev Profile (α : Type) := Field → α

namespace Profile

/-- The last value given for a name. -/
def last? (name : String) : List (String × Option α) → Option α
  | [] => none
  | (n, v) :: rest =>
    match last? name rest with
    | some a => some a
    | none => if n = name then v else none

/-- Insertion into a sorted list without repetition. -/
def insertName (name : String) : List String → List String
  | [] => [name]
  | n :: rest =>
    if name < n then name :: n :: rest
    else if n < name then n :: insertName name rest
    else n :: rest

/-- The names with a value that no field has, in order and without repetition. -/
def unknownNames : List (String × Option α) → List String
  | [] => []
  | (n, v) :: rest =>
    if v.isSome && (Field.ofName? n).isNone then insertName n (unknownNames rest)
    else unknownNames rest

/-- The name under which the settings to change are given, so that no change can have it. -/
def ownName : String := "settings"

/-- The profile with the value of every change that has one. -/
def override (p : Profile α) (changes : List (String × Option α)) :
    Except (Problem ConfigError) (Profile α) :=
  if changes.any (·.1 == ownName) then .error (.escaped (.givenTwice ownName))
  else
    match unknownNames changes with
    | [] => .ok fun f => (last? f.name changes).getD (p f)
    | names => .error (.reported (.unknownSettings names))

end Profile

structure Overrides where
  outputFormat : Option Format := none
  color : Option Bool := none
  strict : Option Bool := none
  showDiagnostics : Option Bool := none
  encoding : Option Text.Points := none
  deriving DecidableEq, Repr

namespace Settings

def override (s : Settings) (o : Overrides) : Settings where
  outputFormat := o.outputFormat.getD s.outputFormat
  color := o.color.getD s.color
  strict := o.strict.getD s.strict
  showDiagnostics := o.showDiagnostics.getD s.showDiagnostics
  encoding := o.encoding.getD s.encoding

end Settings

end ExprLexer
