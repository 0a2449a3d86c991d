import Mathlib.Algebra.Group.Nat.Defs
import Mathlib.Data.List.Basic
import ExprLexer.Proofs.Encoding.Scheme

/-!
# UTF-16 and UTF-32 decode what they encode

The bytes of a unit and its number determine each other in either order of bytes
(`ByteOrder.number_bytes`, `ByteOrder.bytes_number`), and so do the units of a character and the
character.
-/

namespace ExprLexer.Encoding

namespace ByteOrder

theorem length_digits (width n : Nat) : (digits width n).length = width := by
  induction width generalizing n with
  | zero => rfl
  | succ width ih => rw [digits, List.length_cons, ih]

theorem value_digits (width n : Nat) : value (digits width n) = n % 256 ^ width := by
  induction width generalizing n with
  | zero => rw [digits, value, Nat.pow_zero, Nat.mod_one]
  | succ width ih =>
    have byte : (UInt8.ofNat n).toNat = n % 256 := UInt8.toNat_ofNat'
    rw [digits, value, ih, byte, Nat.pow_succ, Nat.mul_comm (256 ^ width), Nat.mod_mul]

theorem digits_value (bytes : List UInt8) : digits bytes.length (value bytes) = bytes := by
  induction bytes with
  | nil => rfl
  | cons b bytes ih =>
    have small : b.toNat < 256 := b.toNat_lt
    have rest : (b.toNat + 256 * value bytes) / 256 = value bytes := by omega
    have first : UInt8.ofNat (b.toNat + 256 * value bytes) = b := by
      apply UInt8.toNat_inj.mp
      rw [UInt8.toNat_ofNat']
      omega
    rw [List.length_cons, value, digits, rest, ih, first]

theorem length_bytes (o : ByteOrder) (width n : Nat) : (o.bytes width n).length = width := by
  cases o with
  | little => exact length_digits width n
  | big => rw [bytes, List.length_reverse, length_digits]

theorem number_bytes (o : ByteOrder) {width n : Nat} (fits : n < 256 ^ width) :
    o.number (o.bytes width n) = n := by
  have digits_ : value (digits width n) = n := by rw [value_digits, Nat.mod_eq_of_lt fits]
  cases o with
  | little => exact digits_
  | big => rw [bytes, number, List.reverse_reverse, digits_]

theorem bytes_number (o : ByteOrder) {width : Nat} {bs : List UInt8} (length : bs.length = width) :
    o.bytes width (o.number bs) = bs := by
  subst length
  cases o with
  | little => exact digits_value bs
  | big =>
    have reversed := digits_value bs.reverse
    rw [List.length_reverse] at reversed
    rw [bytes, number, reversed, List.reverse_reverse]

theorem number_lt (o : ByteOrder) (bs : List UInt8) : o.number bs < 256 ^ bs.length := by
  have bound : ∀ cs : List UInt8, value cs < 256 ^ cs.length := by
    intro cs
    induction cs with
    | nil => decide
    | cons b cs ih =>
      have small : b.toNat < 256 := b.toNat_lt
      rw [value, List.length_cons, Nat.pow_succ]
      omega
  cases o with
  | little => exact bound bs
  | big => simpa [number] using bound bs.reverse

end ByteOrder

variable {c : Char} {o : ByteOrder}

/-! ### UTF-16 -/

namespace Utf16

variable {a : UInt8} {bytes : List UInt8} {extra : Nat}

/-- A character is one unit that is no surrogate, or a pair of surrogates. -/
inductive Writes (o : ByteOrder) : List UInt8 → Char → Prop
  | single {a b : UInt8} {c : Char} (unit : o.number [a, b] = c.toNat) : Writes o [a, b] c
  | pair {a b a' b' : UInt8} {c : Char} (large : 0x10000 ≤ c.toNat)
      (high : o.number [a, b] = 0xD800 + (c.toNat - 0x10000) / 0x400)
      (low : o.number [a', b'] = 0xDC00 + (c.toNat - 0x10000) % 0x400) : Writes o [a, b, a', b'] c

theorem Writes.exists_cons (writes : Writes o bytes c) : ∃ b more, bytes = b :: more := by
  cases writes with
  | single => exact ⟨_, _, rfl⟩
  | pair => exact ⟨_, _, rfl⟩

theorem exists_bytes (o : ByteOrder) {u : Nat} (unit : u < 0x10000) :
    ∃ a b, o.bytes 2 u = [a, b] ∧ o.number [a, b] = u := by
  obtain ⟨a, b, two⟩ := List.length_eq_two.mp (o.length_bytes 2 u)
  refine ⟨a, b, two, ?_⟩
  rw [← two]
  exact o.number_bytes unit

theorem writes_encode (o : ByteOrder) (c : Char) : Writes o (encode o c) c := by
  have range := Text.toNat_ranges c
  unfold encode Text.units
  by_cases small : c.toNat < 0x10000
  · obtain ⟨a, b, bytes, unit⟩ := exists_bytes o small
    rw [if_pos small, List.flatMap_singleton, bytes]
    exact .single unit
  · obtain ⟨a, b, first, high⟩ :=
      exists_bytes o (u := 0xD800 + (c.toNat - 0x10000) / 0x400) (by omega)
    obtain ⟨a', b', second, low⟩ :=
      exists_bytes o (u := 0xDC00 + (c.toNat - 0x10000) % 0x400) (by omega)
    rw [if_neg small, List.flatMap_cons, List.flatMap_singleton, first, second]
    exact .pair (by omega) high low

theorem encode_of_writes (writes : Writes o bytes c) : encode o c = bytes := by
  unfold encode Text.units
  cases writes with
  | @single a b _ unit =>
    have bound : o.number [a, b] < 256 ^ 2 := o.number_lt [a, b]
    rw [if_pos (by omega), List.flatMap_singleton, ← unit]
    exact o.bytes_number rfl
  | @pair a b a' b' _ large high low =>
    have first : o.bytes 2 (o.number [a, b]) = [a, b] := o.bytes_number rfl
    have second : o.bytes 2 (o.number [a', b']) = [a', b'] := o.bytes_number rfl
    rw [if_neg (by omega), List.flatMap_cons, List.flatMap_singleton, ← high, ← low, first, second]
    rfl

theorem front_of_writes {more : List UInt8} (writes : Writes o (a :: more) c)
    (rest : List UInt8) : front o a (more ++ rest) = .char c more.length := by
  have range := Text.toNat_ranges c
  cases writes with
  | single unit =>
    have high : ¬ Text.isHighSurrogate c.toNat := by
      rw [Text.isHighSurrogate_iff]
      omega
    have low : ¬ Text.isLowSurrogate c.toNat := by
      rw [Text.isLowSurrogate_iff]
      omega
    simp [front, unit, high, low]
  | pair large first second =>
    have high := Text.isHighSurrogate_iff.mpr
      (show 0xD800 ≤ 0xD800 + (c.toNat - 0x10000) / 0x400 ∧ _ by omega)
    have low := Text.isLowSurrogate_iff.mpr
      (show 0xDC00 ≤ 0xDC00 + (c.toNat - 0x10000) % 0x400 ∧ _ by omega)
    simp [front, first, second, high, low, Text.joinPair_units large]

theorem exists_of_front (char : front o a bytes = .char c extra) :
    ∃ more rest, bytes = more ++ rest ∧ more.length = extra ∧ Writes o (a :: more) c := by
  unfold front at char
  split at char
  · cases char
  · rename_i b rest
    have unit : o.number [a, b] < 256 ^ 2 := o.number_lt [a, b]
    dsimp only at char
    split at char
    · rename_i high
      split at char
      · rename_i a' b' rest
        split at char
        · rename_i low
          obtain ⟨rfl, rfl⟩ := Front.char.inj char
          rw [Text.isHighSurrogate_iff] at high
          rw [Text.isLowSurrogate_iff] at low
          have join : (Char.ofNat (Text.joinPair (o.number [a, b]) (o.number [a', b']))).toNat =
              Text.joinPair (o.number [a, b]) (o.number [a', b']) := by
            apply val_ofNat
            unfold Text.joinPair
            omega
          refine ⟨[b, a', b'], rest, rfl, rfl, .pair ?_ ?_ ?_⟩
          all_goals
            rw [join]
            unfold Text.joinPair
            omega
        · cases char
      · cases char
    · rename_i high
      split at char
      · cases char
      · rename_i low
        obtain ⟨rfl, rfl⟩ := Front.char.inj char
        rw [Text.isHighSurrogate_iff] at high
        rw [Text.isLowSurrogate_iff] at low
        exact ⟨[b], rest, rfl, rfl, .single (val_ofNat (by omega)).symm⟩

end Utf16

theorem Scheme.utf16_faithful (o : ByteOrder) : (Scheme.utf16 o).Faithful where
  exists_cons {c bytes} encodes := by
    obtain rfl := Option.some.inj encodes
    exact (Utf16.writes_encode o c).exists_cons
  reads {c b more} encodes rest := by
    have writes := Utf16.writes_encode o c
    rw [show Utf16.encode o c = b :: more from Option.some.inj encodes] at writes
    exact Utf16.front_of_writes writes rest
  writes {b bytes c extra} char := by
    obtain ⟨more, rest, same, length, writes⟩ := Utf16.exists_of_front char
    exact ⟨more, rest, same, length, congrArg some (Utf16.encode_of_writes writes)⟩

/-! ### UTF-32 -/

namespace Utf32

variable {a : UInt8} {bytes : List UInt8} {extra : Nat}

theorem isSurrogate_iff {n : Nat} : Text.Points.isSurrogate n ↔ 0xD800 ≤ n ∧ n ≤ 0xDFFF := by
  simp [Text.Points.isSurrogate]

/-- The four bytes of a code point are at the front just if its character is. -/
theorem front_eq_char_iff : front o a bytes = .char c extra ↔
    ∃ b d e rest, bytes = [b, d, e] ++ rest ∧ extra = 3 ∧ o.number [a, b, d, e] = c.toNat := by
  have range := Text.toNat_ranges c
  constructor
  · intro char
    unfold front at char
    split at char
    · rename_i b d e rest
      dsimp only at char
      split at char
      · cases char
      · rename_i scalar
        split at char
        · obtain ⟨rfl, rfl⟩ := Front.char.inj char
          rw [isSurrogate_iff] at scalar
          exact ⟨b, d, e, rest, rfl, rfl, (val_ofNat (by omega)).symm⟩
        · cases char
    · cases char
  · rintro ⟨b, d, e, rest, rfl, rfl, number⟩
    have scalar : ¬ Text.Points.isSurrogate c.toNat := by
      rw [isSurrogate_iff]
      omega
    have point : c.toNat < 0x110000 := by omega
    simp [front, number, scalar, point]

theorem encode_eq_iff : encode o c = a :: bytes ↔
    ∃ b d e, bytes = [b, d, e] ∧ o.number [a, b, d, e] = c.toNat := by
  have range := Text.toNat_ranges c
  constructor
  · intro encodes
    have number : o.number (encode o c) = c.toNat := o.number_bytes (by omega)
    have length : (encode o c).length = 4 := o.length_bytes 4 c.toNat
    rw [encodes] at number length
    obtain ⟨b, d, e, rfl⟩ := List.length_eq_three.mp (Nat.succ.inj length)
    exact ⟨b, d, e, rfl, number⟩
  · rintro ⟨b, d, e, rfl, number⟩
    rw [encode, ← number]
    exact o.bytes_number rfl

end Utf32

theorem Scheme.utf32_faithful (o : ByteOrder) : (Scheme.utf32 o).Faithful where
  exists_cons {c bytes} encodes := by
    obtain rfl := Option.some.inj encodes
    have length : (Utf32.encode o c).length = 4 := o.length_bytes 4 c.toNat
    exact List.exists_cons_of_length_eq_add_one length
  reads {c b more} encodes rest := by
    obtain ⟨d, e, f, rfl, number⟩ := Utf32.encode_eq_iff.mp (Option.some.inj encodes)
    exact Utf32.front_eq_char_iff.mpr ⟨d, e, f, rest, rfl, rfl, number⟩
  writes {b bytes c extra} char := by
    obtain ⟨d, e, f, rest, rfl, rfl, number⟩ := Utf32.front_eq_char_iff.mp char
    refine ⟨[d, e, f], rest, rfl, rfl, ?_⟩
    exact congrArg some (Utf32.encode_eq_iff.mpr ⟨d, e, f, rfl, number⟩)

end ExprLexer.Encoding
