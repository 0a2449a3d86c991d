import ExprLexer.Command.Kinds
import ExprLexer.Command.Scan

/-!
# Running the program
-/

namespace ExprLexer.Command

def Request.run [Monad m] (h : Host m) (r : Request) : m Outcome :=
  match r with
  | .help page => pure (.success page.help)
  | .refuse page e => pure (.refusal page e)
  | .scan verbose o => runScan h verbose o
  | .kinds => pure (.success kindsListing)

def run [Monad m] (h : Host m) (arguments : List String) : m Outcome :=
  (Request.ofArguments arguments).run h

end ExprLexer.Command
