import ExprLexer.Encoding.Scheme

/-!
# Encodings and their names

An encoding is a scheme, perhaps with a mark at the start of the text. It has many names, whose
case and punctuation hardly count. There are eleven encodings here: UTF-8, UTF-16 and UTF-32 with
and without marks, ASCII, Latin-1 and one Windows table. All others are left to a registry of codecs
(`Registry`), and no name of theirs is in the tables below.
-/

namespace ExprLexer

inductive Encoding where
  | plain (scheme : Encoding.Scheme)
  | utf8Marked
  /-- UTF-16 behind a mark that tells the order of bytes; without one the order is little. -/
  | utf16Marked
  /-- UTF-32 behind a mark, as with UTF-16. -/
  | utf32Marked
  deriving DecidableEq, Repr

namespace Encoding

def isNameChar (c : Char) : Bool := c.isAlphanum || c = '.'

/-- The name in lower case, with one underscore for each run of other characters within it. -/
def normal : List Char → List Char
  | [] => []
  | c :: rest =>
    if !isNameChar c then normal rest
    else if (rest.head?.any fun d => !isNameChar d) && rest.any isNameChar then
      c.toLower :: '_' :: normal rest
    else c.toLower :: normal rest

/-- The names that need no alias, of the eleven encodings. -/
def properNames : List (String × Encoding) :=
  [("utf_8", plain .utf8), ("latin_1", plain .latin1), ("ascii", plain .ascii),
    ("cp1252", plain .cp1252), ("utf_8_sig", utf8Marked), ("utf_16", utf16Marked),
    ("utf_16_le", plain (.utf16 .little)), ("utf_16_be", plain (.utf16 .big)),
    ("utf_32", utf32Marked), ("utf_32_le", plain (.utf32 .little)),
    ("utf_32_be", plain (.utf32 .big))]

/-- The further names of the eleven encodings. -/
def aliases : List (Encoding × List String) :=
  [(plain .utf8, ["cp65001", "u8", "utf", "utf8", "utf8_ucs2", "utf8_ucs4"]),
    (plain .latin1, ["8859", "cp819", "csisolatin1", "ibm819", "iso8859", "iso8859_1",
      "iso_8859_1", "iso_8859_1_1987", "iso_ir_100", "l1", "latin", "latin1"]),
    (plain .ascii, ["646", "ansi_x3.4_1968", "ansi_x3.4_1986", "ansi_x3_4_1968", "cp367",
      "csascii", "ibm367", "iso646_us", "iso_646.irv_1991", "iso_ir_6", "us", "us_ascii"]),
    (plain .cp1252, ["1252", "windows_1252"]),
    (utf16Marked, ["u16", "utf16"]),
    (plain (.utf16 .little), ["unicodelittleunmarked", "utf_16le"]),
    (plain (.utf16 .big), ["unicodebigunmarked", "utf_16be"]),
    (utf32Marked, ["u32", "utf32"]),
    (plain (.utf32 .little), ["utf_32le"]),
    (plain (.utf32 .big), ["utf_32be"])]

def ofAlias? (cs : List Char) : Option Encoding :=
  (aliases.find? fun a => a.2.any (·.toList == cs)).map (·.1)

/-- Which of the eleven encodings a name is for, if any. In an alias a point may stand for an
underscore. -/
def ofName? (name : String) : Option Encoding :=
  let cs := normal name.toList
  match ofAlias? cs, ofAlias? (cs.map fun c => if c = '.' then '_' else c) with
  | some e, _ => some e
  | none, some e => some e
  | none, none => (properNames.find? (·.1.toList == cs)).map (·.2)

end Encoding

end ExprLexer
