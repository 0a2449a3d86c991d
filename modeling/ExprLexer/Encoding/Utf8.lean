import ExprLexer.Encoding.Front

/-!
# UTF-8

The first byte of a character tells how many follow and narrows the range of the next one. The
narrowing keeps out longer forms of a character than its shortest, surrogates, and everything
beyond the last code point.
-/

namespace ExprLexer.Encoding.Utf8

/-- The bits that a first byte brings, how many bytes follow it, and the range of the next one. -/
structure Lead where
  bits : Nat
  tails : Nat
  low : Nat
  high : Nat
  deriving DecidableEq, Repr

def lead? (b : Nat) : Option Lead :=
  if b < 0x80 then some ⟨b, 0, 0x80, 0xBF⟩
  else if b < 0xC2 then none
  else if b < 0xE0 then some ⟨b - 0xC0, 1, 0x80, 0xBF⟩
  else if b < 0xF0 then
    some ⟨b - 0xE0, 2, if b = 0xE0 then 0xA0 else 0x80, if b = 0xED then 0x9F else 0xBF⟩
  else if b < 0xF5 then
    some ⟨b - 0xF0, 3, if b = 0xF0 then 0x90 else 0x80, if b = 0xF4 then 0x8F else 0xBF⟩
  else none

/-- What `taken` bytes with the bits `bits` come to when `tails` more are due, the next of them
between `low` and `high`. -/
def tail (low high taken bits : Nat) : Nat → List UInt8 → Front
  | 0, _ => .char (Char.ofNat bits) (taken - 1)
  | _ + 1, [] => .bad taken .unexpectedEnd
  | tails + 1, b :: rest =>
    if low ≤ b.toNat ∧ b.toNat ≤ high then
      tail 0x80 0xBF (taken + 1) (bits * 64 + (b.toNat - 0x80)) tails rest
    else .bad taken .invalidContinuation

def front (b : UInt8) (rest : List UInt8) : Front :=
  match lead? b.toNat with
  | none => .bad 1 .invalidStart
  | some l => tail l.low l.high 1 l.bits l.tails rest

end ExprLexer.Encoding.Utf8
