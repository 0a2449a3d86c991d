import ExprLexer.File.Path
import ExprLexer.Text.Quoted

/-!
# Refusals

Why the system does not do what it is asked for: an error number and its text.
-/

namespace ExprLexer

structure Refusal where
  number : Int
  text : String
  deriving DecidableEq, Repr

namespace Refusal

def notFound : Refusal := ⟨2, "No such file or directory"⟩

def notDirectory : Refusal := ⟨20, "Not a directory"⟩

def isDirectory : Refusal := ⟨21, "Is a directory"⟩

def nameTooLong : Refusal := ⟨36, "File name too long"⟩

def message (r : Refusal) : String := "[Errno " ++ toString r.number ++ "] " ++ r.text

def messageAt (r : Refusal) (p : Path) : String := r.message ++ ": " ++ Text.quote p.toString

end Refusal

inductive ReadError where
  /-- No path may hold a null character. -/
  | nullInPath
  | refused (r : Refusal)
  deriving DecidableEq, Repr

end ExprLexer
