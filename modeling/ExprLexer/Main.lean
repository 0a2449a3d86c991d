import ExprLexer.Command.Run
import ExprLexer.Encoding.Escaped

/-!
# The program

A run on the real host: files and the standard input of the system, and its two output streams.
-/

namespace ExprLexer

def systemError : IO.Error → Nat × String
  | .alreadyExists _ n t | .invalidArgument _ n t | .permissionDenied _ n t
  | .resourceExhausted _ n t | .inappropriateType _ n t | .noSuchThing _ n t
  | .noFileOrDirectory _ n t | .interrupted _ n t | .otherError n t | .resourceBusy n t
  | .resourceVanished n t | .unsupportedOperation n t | .hardwareFault n t
  | .unsatisfiedConstraints n t | .illegalOperation n t | .protocolError n t | .timeExpired n t =>
    (n.toNat, t)
  | .unexpectedEof => (5, "Input/output error")
  | .userError t => (5, t)

/-- The refusal that a failed operation amounts to. Its number may come negated in 32 bits. -/
def refusalOf (e : IO.Error) : Refusal :=
  let (n, text) := systemError e
  let number : Int := if 0x80000000 ≤ n then 0x100000000 - n else n
  let known := [Refusal.notFound, .notDirectory, .isDirectory, .nameTooLong]
  (known.find? (·.number = number)).getD ⟨number, text⟩

/-- Reading a directory is refused as such, so an attempt to read tells the kind of an entry. A file
that may not be read is a file nonetheless. -/
def kindOfRead : Except ReadError (List UInt8) → Except Refusal (Option FileKind)
  | .ok _ => .ok (some .file)
  | .error .nullInPath => .ok none
  | .error (.refused r) =>
    if r = .isDirectory then .ok (some .directory)
    else if r = .notFound ∨ r = .notDirectory then .ok none
    else if r.number = 13 then .ok (some .file)
    else .error r

def readFile (p : Path) : IO (Except ReadError (List UInt8)) := do
  if p.hasNull then return .error .nullInPath
  try
    return .ok (← IO.FS.readBinFile p.toString).toList
  catch e =>
    return .error (.refused (refusalOf e))

def readInput : IO (Except Refusal (List UInt8)) := do
  try
    let stream ← IO.getStdin
    let mut bytes := ByteArray.empty
    repeat
      let chunk ← stream.read 65536
      if chunk.isEmpty then break
      bytes := bytes ++ chunk
    return .ok bytes.toList
  catch e =>
    return .error (refusalOf e)

def systemHost : Host IO where
  read := readFile
  kindAt p := return kindOfRead (← readFile p)
  input := readInput
  workingDirectory := return Path.ofString (toString (← IO.currentDir))
  codecs := .escaped

def runOnSystem (arguments : List String) : IO UInt32 := do
  let o ← Command.run systemHost arguments
  (← IO.getStdout).putStr o.output
  (← IO.getStderr).putStr o.errors
  match o.status with
  | .ok n => return n.toUInt32
  | .error e =>
    (← IO.getStderr).putStr (e.message ++ "\n")
    return 1

end ExprLexer

def main (arguments : List String) : IO UInt32 := ExprLexer.runOnSystem arguments
