import ExprLexer.Encoding.Front
import ExprLexer.Text.Points
import ExprLexer.Text.Units

/-!
# UTF-16 and UTF-32

Code units of two or of four bytes, in either order of bytes.
-/

namespace ExprLexer.Encoding

inductive ByteOrder where
  | little | big
  deriving DecidableEq, Repr

namespace ByteOrder

/-- The number of the given bytes, the lowest byte first. -/
def value : List UInt8 → Nat
  | [] => 0
  | b :: rest => b.toNat + 256 * value rest

def number (o : ByteOrder) (bytes : List UInt8) : Nat :=
  match o with
  | little => value bytes
  | big => value bytes.reverse

/-- The lowest `width` bytes of a number, the lowest byte first. -/
def digits : Nat → Nat → List UInt8
  | 0, _ => []
  | width + 1, n => UInt8.ofNat n :: digits width (n / 256)

def bytes (o : ByteOrder) (width n : Nat) : List UInt8 :=
  match o with
  | little => digits width n
  | big => (digits width n).reverse

end ByteOrder

namespace Utf16

def front (o : ByteOrder) (a : UInt8) : List UInt8 → Front
  | [] => .bad 1 .truncated
  | b :: rest =>
    let u := o.number [a, b]
    if Text.isHighSurrogate u then
      match rest with
      | c :: d :: _ =>
        let v := o.number [c, d]
        if Text.isLowSurrogate v then .char (Char.ofNat (Text.joinPair u v)) 3
        else .bad 2 .brokenPair
      | _ => .bad (2 + rest.length) .unexpectedEnd
    else if Text.isLowSurrogate u then .bad 2 .loneSurrogate
    else .char (Char.ofNat u) 1

def encode (o : ByteOrder) (c : Char) : List UInt8 := (Text.units c.toNat).flatMap (o.bytes 2)

end Utf16

namespace Utf32

def front (o : ByteOrder) (a : UInt8) : List UInt8 → Front
  | b :: c :: d :: _ =>
    let n := o.number [a, b, c, d]
    if Text.Points.isSurrogate n then .bad 4 .surrogate
    else if n < 0x110000 then .char (Char.ofNat n) 3
    else .bad 4 .beyondUnicode
  | rest => .bad (1 + rest.length) .truncated

def encode (o : ByteOrder) (c : Char) : List UInt8 := o.bytes 4 c.toNat

end Utf32

end ExprLexer.Encoding
