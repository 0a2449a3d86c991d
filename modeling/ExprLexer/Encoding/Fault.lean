import ExprLexer.Text.Digits

/-!
# Faults of encoded text

Where bytes stop being text, and why.
-/

namespace ExprLexer.Encoding

inductive Reason where
  | invalidStart
  | invalidContinuation
  | unexpectedEnd
  | beyondAscii
  | undefined
  | truncated
  /-- A high surrogate without its low one. -/
  | brokenPair
  /-- A low surrogate on its own. -/
  | loneSurrogate
  | beyondUnicode
  | surrogate
  /-- What a codec outside the encodings of this library says. -/
  | other (text : String)
  deriving DecidableEq, Repr

def Reason.message : Reason → String
  | invalidStart => "invalid start byte"
  | invalidContinuation => "invalid continuation byte"
  | unexpectedEnd => "unexpected end of data"
  | beyondAscii => "ordinal not in range(128)"
  | undefined => "character maps to <undefined>"
  | truncated => "truncated data"
  | brokenPair => "illegal UTF-16 surrogate"
  | loneSurrogate => "illegal encoding"
  | beyondUnicode => "code point not in range(0x110000)"
  | surrogate => "code point in surrogate code point range(0xd800, 0xe000)"
  | other text => text

/-- The `width` bytes from `position` on, of which `byte` is the first, write no character. -/
structure Fault where
  scheme : String
  position : Nat
  width : Nat
  byte : UInt8
  reason : Reason
  deriving DecidableEq, Repr

def Fault.message (f : Fault) : String :=
  "'" ++ f.scheme ++ "' codec can't decode "
    ++ (if f.width = 1 then
        "byte 0x" ++ String.ofList (Text.hex Text.lowerDigit 2 f.byte.toNat) ++ " in position "
          ++ toString f.position
      else
        "bytes in position " ++ toString f.position ++ "-" ++ toString (f.position + f.width - 1))
    ++ ": " ++ f.reason.message

end ExprLexer.Encoding
