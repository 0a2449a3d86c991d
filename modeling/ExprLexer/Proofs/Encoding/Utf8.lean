import Mathlib.Data.List.Basic
import ExprLexer.Proofs.Encoding.Scheme

/-!
# UTF-8 decodes what it encodes

`Writes` says by the first byte, the range of the next one and the bits of all which bytes write a
character. They are the bytes of that character, and the ones that the reader finds
(`Scheme.utf8_faithful`).
-/

namespace ExprLexer.Encoding

namespace Utf8

variable {low high taken bits tails extra : Nat} {bytes more : List UInt8} {b : UInt8} {c : Char}

/-- Bytes that continue a character. The first of them has a range of its own. -/
def Continues (low high : Nat) : List UInt8 → Prop
  | [] => True
  | b :: more => low ≤ b.toNat ∧ b.toNat ≤ high ∧ Continues 0x80 0xBF more

/-- The bits of a first byte and of those that continue it. -/
def value (bits : Nat) (more : List UInt8) : Nat :=
  more.foldl (fun n b => n * 64 + (b.toNat - 0x80)) bits

theorem value_nil : value bits [] = bits := by
  rw [value, List.foldl_nil]

theorem value_cons : value bits (b :: more) = value (bits * 64 + (b.toNat - 0x80)) more := by
  rw [value, List.foldl_cons, value]

theorem tail_append (continues : Continues low high more) (rest : List UInt8) :
    tail low high taken bits more.length (more ++ rest) =
      .char (Char.ofNat (value bits more)) (taken + more.length - 1) := by
  induction more generalizing low high taken bits with
  | nil => rw [List.length_nil, tail, value_nil, Nat.add_zero]
  | cons b more ih =>
    obtain ⟨least, greatest, continues⟩ := continues
    rw [List.length_cons, List.cons_append, tail, if_pos ⟨least, greatest⟩, ih continues,
      value_cons]
    congr 1
    omega

theorem exists_of_tail (char : tail low high taken bits tails bytes = .char c extra) :
    ∃ more rest, bytes = more ++ rest ∧ more.length = tails ∧ Continues low high more ∧
      c = Char.ofNat (value bits more) ∧ extra = taken + tails - 1 := by
  induction tails generalizing low high taken bits bytes with
  | zero =>
    rw [tail] at char
    obtain ⟨rfl, rfl⟩ := Front.char.inj char
    exact ⟨[], bytes, rfl, rfl, trivial, by rw [value_nil], by rw [Nat.add_zero]⟩
  | succ tails ih =>
    cases bytes with
    | nil => cases char
    | cons b bytes =>
      rw [tail] at char
      split at char
      · rename_i range
        obtain ⟨more, rest, rfl, length, continues, char, count⟩ := ih char
        refine ⟨b :: more, rest, rfl, ?_, ⟨range.1, range.2, continues⟩, ?_, ?_⟩
        · rw [List.length_cons, length]
        · rw [value_cons, char]
        · omega
      · cases char

/-! ### First bytes -/

variable {n : Nat}

theorem lead?_one (range : n < 0x80) : lead? n = some ⟨n, 0, 0x80, 0xBF⟩ := by
  rw [lead?, if_pos range]

theorem lead?_two (least : 0xC2 ≤ n) (greatest : n < 0xE0) :
    lead? n = some ⟨n - 0xC0, 1, 0x80, 0xBF⟩ := by
  rw [lead?, if_neg (by omega), if_neg (by omega), if_pos greatest]

theorem lead?_three (least : 0xE0 ≤ n) (greatest : n < 0xF0) :
    lead? n = some ⟨n - 0xE0, 2, if n = 0xE0 then 0xA0 else 0x80,
      if n = 0xED then 0x9F else 0xBF⟩ := by
  rw [lead?, if_neg (by omega), if_neg (by omega), if_neg (by omega), if_pos greatest]

theorem lead?_four (least : 0xF0 ≤ n) (greatest : n < 0xF5) :
    lead? n = some ⟨n - 0xF0, 3, if n = 0xF0 then 0x90 else 0x80,
      if n = 0xF4 then 0x8F else 0xBF⟩ := by
  rw [lead?, if_neg (by omega), if_neg (by omega), if_neg (by omega), if_neg (by omega),
    if_pos greatest]

/-! ### Characters -/

/-- A first byte and those that continue it, with the character that they write. -/
def Writes (b : UInt8) (more : List UInt8) (c : Char) : Prop :=
  ∃ l, lead? b.toNat = some l ∧ more.length = l.tails ∧ Continues l.low l.high more ∧
    c = Char.ofNat (value l.bits more)

theorem writes_of_utf8EncodeChar (encodes : String.utf8EncodeChar c = b :: more) :
    Writes b more c := by
  have valid : c.val.toNat < 0xD800 ∨ 0xDFFF < c.val.toNat ∧ c.val.toNat < 0x110000 := c.valid
  have self : c = Char.ofNat c.val.toNat := (Char.ofNat_toNat c).symm
  unfold String.utf8EncodeChar at encodes
  extract_lets v at encodes
  change v < 0xD800 ∨ 0xDFFF < v ∧ v < 0x110000 at valid
  change c = Char.ofNat v at self
  clear_value v
  -- By the number of bytes, from one to four.
  rw [self]
  split at encodes
  · obtain ⟨rfl, rfl⟩ := List.cons.inj encodes
    have byte : (UInt8.ofNat v).toNat = v := by
      rw [UInt8.toNat_ofNat']
      omega
    exact ⟨_, lead?_one (by omega), rfl, trivial, by rw [value_nil, byte]⟩
  · split at encodes
    · obtain ⟨rfl, rfl⟩ := List.cons.inj encodes
      refine ⟨_, lead?_two ?_ ?_, rfl, ⟨?_, ?_, trivial⟩, ?_⟩
      all_goals simp only [value_cons, value_nil, UInt8.toNat_ofNat']
      any_goals omega
      exact congrArg Char.ofNat (by omega)
    · split at encodes
      · obtain ⟨rfl, rfl⟩ := List.cons.inj encodes
        refine ⟨_, lead?_three ?_ ?_, rfl, ⟨?_, ?_, ?_, ?_, trivial⟩, ?_⟩
        all_goals simp only [value_cons, value_nil, UInt8.toNat_ofNat']
        any_goals omega
        · split <;> omega
        · split <;> omega
        · exact congrArg Char.ofNat (by omega)
      · obtain ⟨rfl, rfl⟩ := List.cons.inj encodes
        refine ⟨_, lead?_four ?_ ?_, rfl, ⟨?_, ?_, ?_, ?_, ?_, ?_, trivial⟩, ?_⟩
        all_goals simp only [value_cons, value_nil, UInt8.toNat_ofNat']
        any_goals omega
        · split <;> omega
        · split <;> omega
        · exact congrArg Char.ofNat (by omega)

theorem ofNat_eq {m : Nat} (same : m = b.toNat) : UInt8.ofNat m = b := by
  rw [same, UInt8.ofNat_toNat]

theorem utf8EncodeChar_one (range : b.toNat < 0x80) :
    String.utf8EncodeChar (Char.ofNat b.toNat) = [b] := by
  rw [String.utf8EncodeChar, val_ofNat (by omega), if_pos (by omega), UInt8.ofNat_toNat]

theorem utf8EncodeChar_two {x : UInt8} (least : 0xC2 ≤ b.toNat) (greatest : b.toNat < 0xE0)
    (continues : 0x80 ≤ x.toNat ∧ x.toNat ≤ 0xBF)
    (bits : n = (b.toNat - 0xC0) * 64 + (x.toNat - 0x80)) :
    String.utf8EncodeChar (Char.ofNat n) = [b, x] := by
  rw [String.utf8EncodeChar, val_ofNat (by omega), if_neg (by omega), if_pos (by omega),
    ofNat_eq (b := b) (by omega), ofNat_eq (b := x) (by omega)]

/-- The narrowed range of the second byte keeps out shorter characters and surrogates. -/
theorem utf8EncodeChar_three {x y : UInt8} (least : 0xE0 ≤ b.toNat) (greatest : b.toNat < 0xF0)
    (low : (if b.toNat = 0xE0 then 0xA0 else 0x80) ≤ x.toNat)
    (high : x.toNat ≤ if b.toNat = 0xED then 0x9F else 0xBF)
    (continues : 0x80 ≤ y.toNat ∧ y.toNat ≤ 0xBF)
    (bits : n = ((b.toNat - 0xE0) * 64 + (x.toNat - 0x80)) * 64 + (y.toNat - 0x80)) :
    String.utf8EncodeChar (Char.ofNat n) = [b, x, y] := by
  have second : 0x80 ≤ x.toNat ∧ x.toNat ≤ 0xBF := by
    split at low <;> split at high <;> omega
  have long : 0x7FF < n := by
    split at low <;> omega
  have scalar : n < 0xD800 ∨ 0xDFFF < n := by
    split at high <;> omega
  rw [String.utf8EncodeChar, val_ofNat (by omega), if_neg (by omega), if_neg (by omega),
    if_pos (by omega), ofNat_eq (b := b) (by omega), ofNat_eq (b := x) (by omega),
    ofNat_eq (b := y) (by omega)]

/-- The narrowed range of the second byte keeps out shorter characters and what lies beyond the last
code point. -/
theorem utf8EncodeChar_four {x y z : UInt8} (least : 0xF0 ≤ b.toNat) (greatest : b.toNat < 0xF5)
    (low : (if b.toNat = 0xF0 then 0x90 else 0x80) ≤ x.toNat)
    (high : x.toNat ≤ if b.toNat = 0xF4 then 0x8F else 0xBF)
    (continues : 0x80 ≤ y.toNat ∧ y.toNat ≤ 0xBF) (continues' : 0x80 ≤ z.toNat ∧ z.toNat ≤ 0xBF)
    (bits : n = (((b.toNat - 0xF0) * 64 + (x.toNat - 0x80)) * 64 + (y.toNat - 0x80)) * 64 +
      (z.toNat - 0x80)) :
    String.utf8EncodeChar (Char.ofNat n) = [b, x, y, z] := by
  have second : 0x80 ≤ x.toNat ∧ x.toNat ≤ 0xBF := by
    split at low <;> split at high <;> omega
  have long : 0xFFFF < n := by
    split at low <;> omega
  have scalar : n < 0x110000 := by
    split at high <;> omega
  rw [String.utf8EncodeChar, val_ofNat (by omega), if_neg (by omega), if_neg (by omega),
    if_neg (by omega), ofNat_eq (b := b) (by omega), ofNat_eq (b := x) (by omega),
    ofNat_eq (b := y) (by omega), ofNat_eq (b := z) (by omega)]

theorem utf8EncodeChar_of_writes (writes : Writes b more c) :
    String.utf8EncodeChar c = b :: more := by
  obtain ⟨l, lead, length, continues, rfl⟩ := writes
  unfold lead? at lead
  split at lead
  · rename_i range
    obtain rfl := Option.some.inj lead
    obtain rfl := List.eq_nil_of_length_eq_zero length
    rw [value_nil]
    exact utf8EncodeChar_one range
  · split at lead
    · cases lead
    · split at lead
      · obtain rfl := Option.some.inj lead
        obtain ⟨x, rfl⟩ := List.length_eq_one_iff.mp length
        simp only [Continues, and_true] at continues
        rw [value_cons, value_nil]
        exact utf8EncodeChar_two (by omega) (by omega) continues rfl
      · split at lead
        · obtain rfl := Option.some.inj lead
          obtain ⟨x, y, rfl⟩ := List.length_eq_two.mp length
          simp only [Continues, and_true] at continues
          obtain ⟨low, high, later⟩ := continues
          rw [value_cons, value_cons, value_nil]
          exact utf8EncodeChar_three (by omega) (by omega) low high later rfl
        · split at lead
          · obtain rfl := Option.some.inj lead
            obtain ⟨x, y, z, rfl⟩ := List.length_eq_three.mp length
            simp only [Continues, and_true] at continues
            obtain ⟨low, high, least, greatest, last⟩ := continues
            rw [value_cons, value_cons, value_cons, value_nil]
            exact utf8EncodeChar_four (by omega) (by omega) low high ⟨least, greatest⟩ last rfl
          · cases lead

end Utf8

theorem Scheme.utf8_faithful : Scheme.utf8.Faithful where
  exists_cons {c bytes} encodes := by
    obtain rfl := Option.some.inj encodes
    unfold String.utf8EncodeChar
    dsimp only
    repeat' split
    all_goals exact ⟨_, _, rfl⟩
  reads {c b more} encodes rest := by
    obtain ⟨l, lead, length, continues, rfl⟩ :=
      Utf8.writes_of_utf8EncodeChar (Option.some.inj encodes)
    change Utf8.front b (more ++ rest) = _
    rw [Utf8.front, lead]
    dsimp only
    rw [← length, Utf8.tail_append continues rest, Nat.add_comm, Nat.add_sub_cancel]
  writes {b bytes c extra} char := by
    change Utf8.front b bytes = _ at char
    rw [Utf8.front] at char
    split at char
    · cases char
    · rename_i l lead
      obtain ⟨more, rest, same, length, continues, char, count⟩ := Utf8.exists_of_tail char
      refine ⟨more, rest, same, by omega, ?_⟩
      exact congrArg some (Utf8.utf8EncodeChar_of_writes ⟨l, lead, length, continues, char⟩)

end ExprLexer.Encoding
