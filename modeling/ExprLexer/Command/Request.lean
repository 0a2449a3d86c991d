import ExprLexer.Command.Grammar
import ExprLexer.Command.Page
import ExprLexer.File.Path
import ExprLexer.Settings.Override

/-!
# Requests

What a command line asks for. The program's own switches come before the command; what neither the
program nor the command knows is an error of the program, told only if nothing else is wrong.
-/

namespace ExprLexer.Command

/-- The options of a scan. -/
structure ScanOptions where
  overrides : Overrides := {}
  config : Option Path := none
  file : String := ""
  deriving DecidableEq, Repr

inductive Subcommand where
  | scan | kinds
  deriving DecidableEq, Repr

namespace Subcommand

/-- Every command, in the order in which messages name them. -/
def all : List Subcommand := [scan, kinds]

def name : Subcommand → String
  | scan => "scan"
  | kinds => "kinds"

def ofName? (s : String) : Option Subcommand := all.find? (·.name == s)

end Subcommand

structure MainOptions where
  verbose : Bool := false
  command : Option (Subcommand × List String) := none
  deriving DecidableEq, Repr

inductive Request where
  | help (page : Page)
  | refuse (page : Page) (e : UsageError)
  | scan (verbose : Bool) (options : ScanOptions)
  | kinds
  deriving DecidableEq, Repr

/-! ### Grammars -/

def helpSwitches : List (Switch σ) :=
  [⟨"-h", "-h/--help", .help⟩, ⟨"--help", "-h/--help", .help⟩]

def beVerbose (o : MainOptions) : MainOptions := { o with verbose := true }

def setCommand (name : String) (arguments : List String) (o : MainOptions) :
    Except UsageError MainOptions :=
  match Subcommand.ofName? name with
  | some c => .ok { o with command := some (c, arguments) }
  | none => .error (.notAChoice "COMMAND" name (Subcommand.all.map Subcommand.name))

def mainGrammar : Grammar MainOptions where
  switches := helpSwitches
    ++ [⟨"-v", "-v/--verbose", .mark beVerbose⟩, ⟨"--verbose", "-v/--verbose", .mark beVerbose⟩]
  operands := .command setCommand

def setFormat (name : String) (o : ScanOptions) : Except UsageError ScanOptions :=
  match Format.ofName? name with
  | some f => .ok { o with overrides.outputFormat := some f }
  | none => .error (.notAChoice "--format" name (Format.all.map Format.name))

def setColor (b : Bool) (o : ScanOptions) : ScanOptions := { o with overrides.color := some b }

def beStrict (o : ScanOptions) : ScanOptions := { o with overrides.strict := some true }

def hideDiagnostics (o : ScanOptions) : ScanOptions :=
  { o with overrides.showDiagnostics := some false }

def setEncoding (name : String) (o : ScanOptions) : Except UsageError ScanOptions :=
  .ok { o with overrides.encoding := some (.ofString name) }

def setConfig (path : String) (o : ScanOptions) : Except UsageError ScanOptions :=
  .ok { o with config := some (Path.ofString path) }

def scanGrammar : Grammar ScanOptions where
  switches := helpSwitches
    ++ [⟨"--format", "--format", .store setFormat⟩,
      ⟨"--color", "--color/--no-color", .mark (setColor true)⟩,
      ⟨"--no-color", "--color/--no-color", .mark (setColor false)⟩,
      ⟨"--strict", "--strict", .mark beStrict⟩,
      ⟨"--no-diagnostics", "--no-diagnostics", .mark hideDiagnostics⟩,
      ⟨"--encoding", "--encoding", .store setEncoding⟩,
      ⟨"--config", "--config", .store setConfig⟩]
  operands := .one "file" fun file o => { o with file }

def kindsGrammar : Grammar Unit where
  switches := helpSwitches
  operands := .none

/-! ### Requests -/

namespace Request

/-- The request for a page, where a command line stops. -/
def ofStop (page : Page) : Stop → Request
  | .help => help page
  | .error e => refuse page e

/-- The request, unless arguments were left aside. -/
def withoutExtras (extras : List String) (r : Request) : Request :=
  if extras = [] then r else refuse .main (.unrecognized extras)

def ofArguments (arguments : List String) : Request :=
  match mainGrammar.parse {} arguments with
  | .error s => ofStop .main s
  | .ok (o, extras) =>
    match o.command with
    | none => withoutExtras extras (help .main)
    | some (.scan, rest) =>
      match scanGrammar.parse {} rest with
      | .error s => ofStop .scan s
      | .ok (options, more) => withoutExtras (extras ++ more) (scan o.verbose options)
    | some (.kinds, rest) =>
      match kindsGrammar.parse () rest with
      | .error s => ofStop .kinds s
      | .ok (_, more) => withoutExtras (extras ++ more) kinds

end Request

end ExprLexer.Command
