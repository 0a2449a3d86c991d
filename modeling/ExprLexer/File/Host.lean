import ExprLexer.Encoding.Codec
import ExprLexer.File.Tree

/-!
# Hosts

What a run of the program asks of its surroundings. `Surroundings` are a host whose files do not
change during the run.
-/

namespace ExprLexer

structure Host (m : Type → Type) where
  read : Path → m (Except ReadError (List UInt8))
  kindAt : Path → m (Except Refusal (Option FileKind))
  /-- All bytes of the standard input. -/
  input : m (Except Refusal (List UInt8))
  workingDirectory : m Path
  codecs : Registry

structure Surroundings where
  files : Files
  input : Except Refusal (List UInt8)
  codecs : Registry

def Surroundings.host (s : Surroundings) : Host Id where
  read := s.files.read
  kindAt := s.files.kindAt
  input := s.input
  workingDirectory := s.files.workingDirectory
  codecs := s.codecs

end ExprLexer
