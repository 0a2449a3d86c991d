import ExprLexer.Encoding.Single
import ExprLexer.Encoding.Utf8
import ExprLexer.Encoding.Wide

/-!
# Schemes of encoding

A scheme gives every character that it knows bytes of its own. `decode` reads bytes back and says
where they stop being those of a text.
-/

namespace ExprLexer.Encoding

inductive Scheme where
  | utf8
  | latin1
  | ascii
  | cp1252
  | utf16 (order : ByteOrder)
  | utf32 (order : ByteOrder)
  deriving DecidableEq, Repr

namespace Scheme

def name : Scheme → String
  | utf8 => "utf-8"
  | latin1 => "latin-1"
  | ascii => "ascii"
  | cp1252 => "charmap"
  | utf16 .little => "utf-16-le"
  | utf16 .big => "utf-16-be"
  | utf32 .little => "utf-32-le"
  | utf32 .big => "utf-32-be"

def front : Scheme → UInt8 → List UInt8 → Front
  | utf8 => Utf8.front
  | latin1 => Latin1.front
  | ascii => Ascii.front
  | cp1252 => Cp1252.front
  | utf16 o => Utf16.front o
  | utf32 o => Utf32.front o

/-- The text that bytes write, or the first fault. Faults count from `position`. -/
def decode (s : Scheme) (position : Nat) (bytes : List UInt8) : Except Fault (List Char) :=
  decodeFrom s.name s.front position bytes

def encodeChar? : Scheme → Char → Option (List UInt8)
  | utf8, c => some (String.utf8EncodeChar c)
  | latin1, c => if c.toNat < 0x100 then some [UInt8.ofNat c.toNat] else none
  | ascii, c => if c.toNat < 0x80 then some [UInt8.ofNat c.toNat] else none
  | cp1252, c => (Cp1252.byte? c).map ([·])
  | utf16 o, c => some (Utf16.encode o c)
  | utf32 o, c => some (Utf32.encode o c)

def encode? (s : Scheme) : List Char → Option (List UInt8)
  | [] => some []
  | c :: rest =>
    match s.encodeChar? c, s.encode? rest with
    | some bs, some more => some (bs ++ more)
    | _, _ => none

/-- The bytes of U+FEFF, which tell the scheme of a text that starts with them. -/
def mark (s : Scheme) : List UInt8 := (s.encodeChar? '\ufeff').getD []

def behindMark? (s : Scheme) (bytes : List UInt8) : Option (List UInt8) :=
  if s.mark.isPrefixOf bytes then some (bytes.drop s.mark.length) else none

end Scheme

end ExprLexer.Encoding
