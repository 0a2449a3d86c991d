import ExprLexer.Encoding.Front

/-!
# One byte a character

ASCII, the first 256 code points, and the Windows table for Western European text.
-/

namespace ExprLexer.Encoding

namespace Ascii

def front (b : UInt8) (_ : List UInt8) : Front :=
  if b < 0x80 then .char (Char.ofNat b.toNat) 0 else .bad 1 .beyondAscii

end Ascii

namespace Latin1

def front (b : UInt8) (_ : List UInt8) : Front := .char (Char.ofNat b.toNat) 0

end Latin1

namespace Cp1252

/-- The characters of the bytes from 0x80 to 0x9F, of which five are not in use. -/
def upper : List (Option Char) :=
  [some '\u20AC', none, some '\u201A', some '\u0192', some '\u201E', some '\u2026', some '\u2020',
    some '\u2021', some '\u02C6', some '\u2030', some '\u0160', some '\u2039', some '\u0152', none,
    some '\u017D', none, none, some '\u2018', some '\u2019', some '\u201C', some '\u201D',
    some '\u2022', some '\u2013', some '\u2014', some '\u02DC', some '\u2122', some '\u0161',
    some '\u203A', some '\u0153', none, some '\u017E', some '\u0178']

def char? (b : UInt8) : Option Char :=
  if b < 0x80 ∨ 0xA0 ≤ b then some (Char.ofNat b.toNat)
  else (upper[b.toNat - 0x80]?).join

def byte? (c : Char) : Option UInt8 :=
  ((List.range 0x100).map UInt8.ofNat).find? fun b => char? b = some c

def front (b : UInt8) (_ : List UInt8) : Front :=
  match char? b with
  | some c => .char c 0
  | none => .bad 1 .undefined

end Cp1252

end ExprLexer.Encoding
