/-!
# Help pages

What the program tells about itself and its commands.
-/

namespace ExprLexer.Command

def version : String := "0.1.0"

inductive Page where
  | main | scan | kinds
  deriving DecidableEq, Repr

namespace Page

def subject : Page → String
  | main => "minilex"
  | scan => "minilex scan"
  | kinds => "minilex kinds"

def usage : Page → String
  | main => "usage: minilex [-h] [-v] COMMAND ...\n"
  | scan =>
    "usage: minilex scan [-h] [--format \x7btext,table,yaml,json\x7d]\n"
      ++ "                    [--color | --no-color] [--strict] [--no-diagnostics]\n"
      ++ "                    [--encoding ENCODING] [--config CONFIG]\n"
      ++ "                    file\n"
  | kinds => "usage: minilex kinds [-h]\n"

/-- What follows the usage. -/
def details : Page → String
  | main =>
    "minilex: lexical analyzer for a small expression language\n"
      ++ "\n"
      ++ "positional arguments:\n"
      ++ "  COMMAND\n"
      ++ "    scan         Tokenize a source file\n"
      ++ "    kinds        List token kinds and reserved words\n"
      ++ "\n"
      ++ "options:\n"
      ++ "  -h, --help     show this help message and exit\n"
      ++ "  -v, --verbose  Enable debug logging on stderr\n"
  | scan =>
    "Tokenize a source file and print the resulting tokens.\n"
      ++ "\n"
      ++ "positional arguments:\n"
      ++ "  file                  Source file to scan ('-' reads standard input)\n"
      ++ "\n"
      ++ "options:\n"
      ++ "  -h, --help            show this help message and exit\n"
      ++ "  --format \x7btext,table,yaml,json\x7d\n"
      ++ "                        Output format (default: from config, otherwise 'text')\n"
      ++ "  --color, --no-color   Colour token kinds in table output\n"
      ++ "  --strict              Exit with status 1 when the scan reports any\n"
      ++ "                        diagnostic\n"
      ++ "  --no-diagnostics      Do not print diagnostics to stderr\n"
      ++ "  --encoding ENCODING   Source file encoding (default: from config, otherwise\n"
      ++ "                        utf-8)\n"
      ++ "  --config CONFIG       Configuration file (default: nearest .minilex.yaml\n"
      ++ "                        from the current directory)\n"
  | kinds =>
    "List the token kinds, keywords, operators and delimiters the scanner knows.\n"
      ++ "\n"
      ++ "options:\n"
      ++ "  -h, --help  show this help message and exit\n"

def help (p : Page) : String := p.usage ++ "\n" ++ p.details

end Page

end ExprLexer.Command
