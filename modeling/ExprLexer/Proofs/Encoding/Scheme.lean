import ExprLexer.Encoding.Scheme

/-!
# Schemes that decode what they encode

Where the front of bytes is a character just if the bytes of that character stand there, decoding
bytes gives a text just if they are the bytes of that text (`Scheme.decode_eq_ok_iff`).
-/

namespace ExprLexer.Encoding

theorem val_ofNat {n : Nat} (valid : n < 0xD800 ∨ 0xDFFF < n ∧ n < 0x110000) :
    (Char.ofNat n).val.toNat = n := by
  rw [Char.ofNat, dif_pos valid]
  rfl

namespace Scheme

variable {s : Scheme} {c : Char} {cs : List Char} {bytes : List UInt8}

/-- The characters that stand at the front of bytes are those whose bytes stand there. -/
structure Faithful (s : Scheme) : Prop where
  exists_cons {c : Char} {bytes : List UInt8} (encodes : s.encodeChar? c = some bytes) :
    ∃ b more, bytes = b :: more
  reads {c : Char} {b : UInt8} {more : List UInt8} (encodes : s.encodeChar? c = some (b :: more))
    (rest : List UInt8) : s.front b (more ++ rest) = .char c more.length
  writes {b : UInt8} {bytes : List UInt8} {c : Char} {extra : Nat}
    (char : s.front b bytes = .char c extra) :
    ∃ more rest, bytes = more ++ rest ∧ more.length = extra ∧
      s.encodeChar? c = some (b :: more)

theorem encode?_cons : s.encode? (c :: cs) = some bytes ↔
    ∃ front rest, s.encodeChar? c = some front ∧ s.encode? cs = some rest ∧
      bytes = front ++ rest := by
  rw [encode?]
  constructor
  · intro encodes
    split at encodes
    · rename_i front rest char text
      exact ⟨front, rest, char, text, (Option.some.inj encodes).symm⟩
    · cases encodes
  · rintro ⟨front, rest, char, text, rfl⟩
    rw [char, text]

theorem decode_nil (position : Nat) : s.decode position [] = .ok [] := by
  rw [decode, decodeFrom]

theorem decode_cons (position : Nat) (b : UInt8) (bytes : List UInt8) :
    s.decode position (b :: bytes) =
      match s.front b bytes with
      | .char c extra => (s.decode (position + 1 + extra) (bytes.drop extra)).map (c :: ·)
      | .bad width reason => .error ⟨s.name, position, width, b, reason⟩ := by
  rw [decode, decodeFrom]
  rfl

theorem exists_of_decode_cons {position : Nat} {b : UInt8}
    (decodes : s.decode position (b :: bytes) = .ok cs) :
    ∃ c extra ds, s.front b bytes = .char c extra ∧
      s.decode (position + 1 + extra) (bytes.drop extra) = .ok ds ∧ cs = c :: ds := by
  rw [decode_cons] at decodes
  split at decodes
  · rename_i c extra front
    refine ⟨c, extra, ?_⟩
    cases later : s.decode (position + 1 + extra) (bytes.drop extra) with
    | error e =>
      rw [later] at decodes
      cases decodes
    | ok ds =>
      rw [later] at decodes
      exact ⟨ds, front, rfl, (Except.ok.inj decodes).symm⟩
  · cases decodes

theorem Faithful.decode_of_encode? (faithful : s.Faithful) (encodes : s.encode? cs = some bytes)
    (position : Nat) : s.decode position bytes = .ok cs := by
  induction cs generalizing bytes position with
  | nil =>
    cases encodes
    exact decode_nil position
  | cons c cs ih =>
    obtain ⟨front, rest, char, text, rfl⟩ := encode?_cons.mp encodes
    obtain ⟨b, more, rfl⟩ := faithful.exists_cons char
    rw [List.cons_append, decode_cons, faithful.reads char rest]
    dsimp only
    rw [List.drop_left, ih text]
    rfl

theorem Faithful.encode?_of_decode (faithful : s.Faithful) {position : Nat}
    (decodes : s.decode position bytes = .ok cs) : s.encode? cs = some bytes := by
  induction cs generalizing bytes position with
  | nil =>
    cases bytes with
    | nil => rfl
    | cons b bytes =>
      obtain ⟨c, extra, ds, -, -, same⟩ := exists_of_decode_cons decodes
      cases same
  | cons c cs ih =>
    cases bytes with
    | nil =>
      rw [decode_nil] at decodes
      cases decodes
    | cons b bytes =>
      obtain ⟨c, extra, ds, front, later, same⟩ := exists_of_decode_cons decodes
      cases same
      obtain ⟨more, rest, rfl, rfl, char⟩ := faithful.writes front
      rw [List.drop_left] at later
      exact encode?_cons.mpr ⟨b :: more, rest, char, ih later, rfl⟩

theorem Faithful.decode_eq_ok_iff (faithful : s.Faithful) (position : Nat) :
    s.decode position bytes = .ok cs ↔ s.encode? cs = some bytes :=
  ⟨faithful.encode?_of_decode, fun encodes => faithful.decode_of_encode? encodes position⟩

end Scheme

end ExprLexer.Encoding
