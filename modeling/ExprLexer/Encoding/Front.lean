import ExprLexer.Encoding.Fault

/-!
# Characters in bytes

A scheme of encoding says what stands at the front of bytes that are not empty: a character, or
bytes that write none. `decodeFrom` repeats that to the end.
-/

namespace ExprLexer.Encoding

inductive Front where
  /-- A character, and how many bytes behind the first one belong to it. -/
  | char (c : Char) (extra : Nat)
  /-- The first `width` bytes write no character. -/
  | bad (width : Nat) (reason : Reason)
  deriving DecidableEq, Repr

/-- The characters of bytes that start at `position`, where `front` finds each of them. -/
def decodeFrom (scheme : String) (front : UInt8 → List UInt8 → Front) (position : Nat) :
    List UInt8 → Except Fault (List Char)
  | [] => .ok []
  | b :: rest =>
    match front b rest with
    | .char c extra =>
      (decodeFrom scheme front (position + 1 + extra) (rest.drop extra)).map (c :: ·)
    | .bad width reason => .error ⟨scheme, position, width, b, reason⟩
termination_by bs => bs.length
decreasing_by simp only [List.length_drop, List.length_cons]; omega

end ExprLexer.Encoding
