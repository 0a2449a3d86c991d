import ExprLexer.Position
import ExprLexer.Text.Quoted

/-!
# Diagnostics

The conditions from which a scan recovers. They describe the source and never change its tokens.
-/

namespace ExprLexer

inductive Diagnostic.Cause where
  /-- A character that starts no lexeme. -/
  | unknownCharacter (c : Char)
  /-- A numeral that a second decimal point ends. -/
  | extraDecimalPoint (numeral : List Char)
  | unterminatedComment
  deriving DecidableEq, Repr

structure Diagnostic where
  cause : Diagnostic.Cause
  position : Position
  deriving DecidableEq, Repr

namespace Diagnostic

def codes : List String :=
  ["unknown-character", "extra-decimal-point", "unterminated-block-comment"]

def Cause.code : Cause → String
  | unknownCharacter _ => "unknown-character"
  | extraDecimalPoint _ => "extra-decimal-point"
  | unterminatedComment => "unterminated-block-comment"

def Cause.message : Cause → String
  | unknownCharacter c => "Unknown character: " ++ Text.quotePoints [c.toNat]
  | extraDecimalPoint numeral =>
    "Numeric literal " ++ Text.quotePoints (Text.Points.ofChars numeral)
      ++ " ends at a second decimal point"
  | unterminatedComment => "Unterminated block comment discarded"

def message (d : Diagnostic) : String := d.cause.message

def warning (d : Diagnostic) : String :=
  "Warning: " ++ toString d.position.line ++ ":" ++ toString d.position.column ++ ": " ++ d.message

end Diagnostic

end ExprLexer
