import ExprLexer.Encoding.Name

/-!
# Encoded text

Text from bytes in an encoding, and bytes from text. Marks at the start are taken off and put on;
a mark anywhere else, or in an encoding without marks, is a character like any other.
-/

namespace ExprLexer.Encoding

def decodeOrdered (scheme : ByteOrder → Scheme) (bytes : List UInt8) : Except Fault (List Char) :=
  let little := scheme .little
  let big := scheme .big
  match little.behindMark? bytes, big.behindMark? bytes with
  | some rest, _ => little.decode little.mark.length rest
  | none, some rest => big.decode big.mark.length rest
  | none, none => little.decode 0 bytes

/-- The text that bytes write. Behind a mark of UTF-8, faults are counted from the mark's end. -/
def decode (e : Encoding) (bytes : List UInt8) : Except Fault (List Char) :=
  match e with
  | plain s => s.decode 0 bytes
  | utf8Marked => Scheme.utf8.decode 0 ((Scheme.utf8.behindMark? bytes).getD bytes)
  | utf16Marked => decodeOrdered .utf16 bytes
  | utf32Marked => decodeOrdered .utf32 bytes

def encode? (e : Encoding) (cs : List Char) : Option (List UInt8) :=
  match e with
  | plain s => s.encode? cs
  | utf8Marked => Scheme.utf8.encode? ('\ufeff' :: cs)
  | utf16Marked => (Scheme.utf16 .little).encode? ('\ufeff' :: cs)
  | utf32Marked => (Scheme.utf32 .little).encode? ('\ufeff' :: cs)

end ExprLexer.Encoding
