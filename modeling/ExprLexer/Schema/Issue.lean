import ExprLexer.Data.Display

/-!
# Issues

What is wrong with a record that does not fit its schema. A failure lists every issue: those of the
fields in order of declaration, then those of other keys in order of appearance.
-/

namespace ExprLexer.Schema

inductive Cause where
  | notARecord
  | missing
  | extra
  | keyNotText
  | notOneOf (choices : List String)
  | notText
  | notUnicode
  | tooShort
  | notInteger
  | noIntegerText
  | integerTooLong
  | fractional
  | notFinite
  | belowOne
  | notFlag
  | noFlagText
  deriving DecidableEq, Repr

namespace Cause

def code : Cause → String
  | notARecord => "model_type"
  | missing => "missing"
  | extra => "extra_forbidden"
  | keyNotText => "invalid_key"
  | notOneOf _ => "enum"
  | notText => "string_type"
  | notUnicode => "string_unicode"
  | tooShort => "string_too_short"
  | notInteger => "int_type"
  | noIntegerText => "int_parsing"
  | integerTooLong => "int_parsing_size"
  | fractional => "int_from_float"
  | notFinite => "finite_number"
  | belowOne => "greater_than_equal"
  | notFlag => "bool_type"
  | noFlagText => "bool_parsing"

/-- Quoted names with commas between them and `or` before the last one. -/
def alternatives : List String → String
  | [] => ""
  | [a] => Text.quote a
  | [a, b] => Text.quote a ++ " or " ++ Text.quote b
  | a :: rest => Text.quote a ++ ", " ++ alternatives rest

def message (schema : String) : Cause → String
  | notARecord => "Input should be a valid dictionary or instance of " ++ schema
  | missing => "Field required"
  | extra => "Extra inputs are not permitted"
  | keyNotText => "Keys should be strings"
  | notOneOf choices => "Input should be " ++ alternatives choices
  | notText => "Input should be a valid string"
  | notUnicode =>
    "Input should be a valid string, unable to parse raw data as a unicode string"
  | tooShort => "String should have at least 1 character"
  | notInteger => "Input should be a valid integer"
  | noIntegerText => "Input should be a valid integer, unable to parse string as an integer"
  | integerTooLong => "Unable to parse input string as an integer, exceeded maximum size"
  | fractional => "Input should be a valid integer, got a number with a fractional part"
  | notFinite => "Input should be a finite number"
  | belowOne => "Input should be greater than or equal to 1"
  | notFlag => "Input should be a valid boolean"
  | noFlagText => "Input should be a valid boolean, unable to interpret input"

end Cause

structure Issue where
  /-- The key that the issue is about; `none` is the record itself. -/
  location : Option String
  cause : Cause
  input : Data
  deriving Repr

/-- The line that names a key. Dots would read as a path, so a key with one is set apart. -/
def locationLine (name : String) : String :=
  if name.toList.contains '.' then "`" ++ name ++ "`\n" else name ++ "\n"

def explanations : String := "https://errors.pydantic.dev/2.14/v/"

def Issue.report (schema : String) (i : Issue) : String :=
  i.location.elim "" locationLine ++ "  " ++ i.cause.message schema ++ " [type=" ++ i.cause.code
    ++ ", input_value=" ++ String.ofList (Data.abridge i.input.shown) ++ ", input_type="
    ++ i.input.typeName ++ "]\n    For further information visit " ++ explanations ++ i.cause.code

structure Failure where
  schema : String
  issues : List Issue
  deriving Repr

def Failure.message (f : Failure) : String :=
  let n := f.issues.length
  toString n ++ (if n = 1 then " validation error for " else " validation errors for ") ++ f.schema
    ++ String.join (f.issues.map fun i => "\n" ++ i.report f.schema)

end ExprLexer.Schema
