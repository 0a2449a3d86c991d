import ExprLexer.Text.Quoted

/-!
# Usage errors

Why the arguments of a command line are not understood.
-/

namespace ExprLexer.Command

inductive UsageError where
  | ambiguous (argument : String) (candidates : List String)
  | needsText (label : String)
  | surplusText (label text : String)
  | notAChoice (label value : String) (choices : List String)
  | missing (label : String)
  | unrecognized (arguments : List String)
  deriving DecidableEq, Repr

def UsageError.message : UsageError → String
  | ambiguous argument candidates =>
    "ambiguous option: " ++ argument ++ " could match " ++ ", ".intercalate candidates
  | needsText label => "argument " ++ label ++ ": expected one argument"
  | surplusText label text =>
    "argument " ++ label ++ ": ignored explicit argument " ++ Text.quote text
  | notAChoice label value choices =>
    "argument " ++ label ++ ": invalid choice: " ++ Text.quote value ++ " (choose from "
      ++ ", ".intercalate (choices.map Text.quote) ++ ")"
  | missing label => "the following arguments are required: " ++ label
  | unrecognized arguments => "unrecognized arguments: " ++ " ".intercalate arguments

end ExprLexer.Command
