import ExprLexer.Yaml.Input

/-!
# Tokens of a document

Block structure shows in tokens of its own, as do the keys of mappings. A text that cannot be read
to its end gives tokens up to a fault, which is then the last one.
-/

namespace ExprLexer.Yaml

/-- A tag as it is written: a handle and what follows it, or a full name. -/
structure TagName where
  handle : Option (List Char)
  suffix : List Char
  deriving DecidableEq, Repr

inductive Directive where
  | version (major : Nat)
  | handle (handle expansion : List Char)
  | other
  deriving DecidableEq, Repr

inductive Token where
  | directive (d : Directive)
  | documentStart
  | documentEnd
  | streamEnd
  | blockSequenceStart
  | blockMappingStart
  | blockEnd
  | flowSequenceStart
  | flowSequenceEnd
  | flowMappingStart
  | flowMappingEnd
  | blockEntry
  | flowEntry
  | key
  | value
  | alias (name : List Char)
  | anchor (name : List Char)
  | tag (name : TagName)
  | scalar (text : Text.Points) (plain : Bool)
  | fault (f : Fault)
  deriving DecidableEq, Repr

end ExprLexer.Yaml
