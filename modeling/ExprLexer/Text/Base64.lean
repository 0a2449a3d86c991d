/-!
# Base 64

Bytes from text in base 64. Characters outside the alphabet are passed over; the text must end at a
whole group or be padded.
-/

namespace ExprLexer.Text.Base64

def value? (c : Char) : Option Nat :=
  if 'A' ≤ c ∧ c ≤ 'Z' then some (c.toNat - 0x41)
  else if 'a' ≤ c ∧ c ≤ 'z' then some (c.toNat - 0x61 + 26)
  else if '0' ≤ c ∧ c ≤ '9' then some (c.toNat - 0x30 + 52)
  else if c = '+' then some 62
  else if c = '/' then some 63
  else none

/-- The bytes of the rest of a text after `filled` digits of a group whose last bits are `left`, and
`pads` signs of padding. -/
def decodeFrom (filled left pads : Nat) : List Char → Option (List UInt8)
  | [] => if filled = 0 then some [] else none
  | c :: rest =>
    if c = '=' then
      if 2 ≤ filled ∧ 4 ≤ filled + pads + 1 then some []
      else decodeFrom filled left (if 2 ≤ filled then pads + 1 else pads) rest
    else
      match value? c with
      | none => decodeFrom filled left pads rest
      | some v =>
        match filled with
        | 0 => decodeFrom 1 v 0 rest
        | 1 => (decodeFrom 2 (v % 16) 0 rest).map (UInt8.ofNat (left * 4 + v / 16) :: ·)
        | 2 => (decodeFrom 3 (v % 4) 0 rest).map (UInt8.ofNat (left * 16 + v / 4) :: ·)
        | _ => (decodeFrom 0 0 0 rest).map (UInt8.ofNat (left * 64 + v) :: ·)

def decode? (cs : List Char) : Option (List UInt8) := decodeFrom 0 0 0 cs

end ExprLexer.Text.Base64
