import ExprLexer.Encoding.Codec
import ExprLexer.Text.Digits

/-!
# Text with escapes by number

A codec of the registry: Latin-1 with escapes of four or eight places for any code point, surrogates
among them. A backslash before any other character stands for itself, and so does that character.
-/

namespace ExprLexer

namespace Encoding.Escaped

def fault (position width : Nat) (text : String) : Codec.Failure :=
  .fault ⟨"rawunicodeescape", position, width, 0x5C, .other text⟩

/-- The digits in base sixteen at the front, `width` of them at most. -/
def places (width : Nat) (bytes : List UInt8) : List Char :=
  ((bytes.take width).map fun b => Char.ofNat b.toNat).takeWhile Text.isHexDigit

/-- The code point of an escape whose letter is passed; the backslash stands at `position`. -/
def number (position width : Nat) (truncated : String) (rest : List UInt8) :
    Except Codec.Failure Nat :=
  let digits := places width rest
  match Text.number? 16 digits with
  | some n =>
    if digits.length < width then .error (fault position (2 + digits.length) truncated)
    else if n < 0x110000 then .ok n
    else .error (fault position (2 + width) "\\Uxxxxxxxx out of range")
  | none => .error (fault position 2 truncated)

def decodeFrom (position : Nat) : List UInt8 → Except Codec.Failure Text.Points
  | [] => .ok []
  | [b] => .ok [b.toNat]
  | b :: c :: rest =>
    if b ≠ 0x5C then (decodeFrom (position + 1) (c :: rest)).map (b.toNat :: ·)
    else if c = 0x75 then do
      let n ← number position 4 "truncated \\uXXXX escape" rest
      (decodeFrom (position + 6) (rest.drop 4)).map (n :: ·)
    else if c = 0x55 then do
      let n ← number position 8 "truncated \\UXXXXXXXX escape" rest
      (decodeFrom (position + 10) (rest.drop 8)).map (n :: ·)
    else (decodeFrom (position + 2) rest).map fun t => b.toNat :: c.toNat :: t
termination_by bytes => bytes.length
decreasing_by all_goals simp only [List.length_drop, List.length_cons]; omega

def codec : Codec := ⟨decodeFrom 0⟩

end Encoding.Escaped

/-- A system with the one codec of escapes. -/
def Registry.escaped : Registry where
  find? name := if name = "raw_unicode_escape".toList then some Encoding.Escaped.codec else none

end ExprLexer
