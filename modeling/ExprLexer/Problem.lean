import ExprLexer.Encoding.Fault
import ExprLexer.File.Refusal
import ExprLexer.Schema.Issue
import ExprLexer.Yaml.Fault

/-!
# Problems

Most of what goes wrong is reported as an error of the task at hand. An escape is a fault for which
no such error exists, so that it ends the run.
-/

namespace ExprLexer

inductive Escape where
  | nullInPath
  | nullInEncoding
  /-- Text with surrogates where only characters can be written. -/
  | unencodable (t : Text.Points)
  /-- What a codec of the registry fails with, by the class of the error and its text. -/
  | codec (kind message : String)
  | refused (r : Refusal) (p : Path)
  | encoding (f : Encoding.Fault)
  | scalar (f : Yaml.Fault)
  | record (f : Schema.Failure)
  /-- An integer that has more digits than are written. -/
  | longInteger
  /-- An argument that is given by its name besides by its place. -/
  | givenTwice (name : String)
  deriving Repr

namespace Escape

/-- The first run of surrogates cannot be written. -/
def unencodableMessage (t : Text.Points) : String :=
  let start := (t.takeWhile fun n => !Text.Points.isSurrogate n).length
  let run := (t.drop start).takeWhile Text.Points.isSurrogate
  "'utf-8' codec can't encode "
    ++ (if run.length = 1 then
        "character " ++ Text.quotePoints run ++ " in position " ++ toString start
      else
        "characters in position " ++ toString start ++ "-" ++ toString (start + run.length - 1))
    ++ ": surrogates not allowed"

def message : Escape → String
  | nullInPath => "embedded null byte"
  | nullInEncoding => "embedded null character"
  | unencodable t => unencodableMessage t
  | codec _ message => message
  | refused r p => r.messageAt p
  | encoding f => f.message
  | scalar f => f.message
  | record f => f.message
  | longInteger => "Exceeds the limit (4300 digits) for integer string conversion; "
    ++ "use sys.set_int_max_str_digits() to increase the limit"
  | givenTwice name => "with_overrides() got multiple values for argument '" ++ name ++ "'"

end Escape

/-- An error of the kind `ε`, or an escape. -/
inductive Problem (ε : Type) where
  | reported (e : ε)
  | escaped (e : Escape)
  deriving Repr

end ExprLexer
