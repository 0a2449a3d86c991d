import ExprLexer.Command.Usage
import ExprLexer.Command.Page
import ExprLexer.Problem

/-!
# Outcomes

What a run of the program leaves behind: what it printed, and the status with which it ended.
-/

namespace ExprLexer.Command

structure Outcome where
  output : String
  errors : String
  /-- The exit status, unless an escape ended the run. -/
  status : Except Escape Nat
  deriving Repr

namespace Outcome

/-- The outcome after the given lines on the error stream. -/
def after (lines : String) (o : Outcome) : Outcome := { o with errors := lines ++ o.errors }

def success (output : String) : Outcome := ⟨output, "", .ok 0⟩

def failure (message : String) : Outcome := ⟨"", "Error: " ++ message ++ "\n", .ok 1⟩

def escape (e : Escape) : Outcome := ⟨"", "", .error e⟩

def ofProblem (message : ε → String) : Problem ε → Outcome
  | .reported e => failure (message e)
  | .escaped e => escape e

def refusal (page : Page) (e : UsageError) : Outcome :=
  ⟨"", page.usage ++ page.subject ++ ": error: " ++ e.message ++ "\n", .ok 2⟩

end Outcome

end ExprLexer.Command
