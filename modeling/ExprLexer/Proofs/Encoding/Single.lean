import Mathlib.Data.List.Basic
import ExprLexer.Proofs.Encoding.Scheme

/-!
# Schemes of one byte a character

A scheme that reads every byte on its own decodes what it encodes if bytes and characters belong
together both ways (`Scheme.faithful_of_bytes`). So do ASCII, Latin-1 and the Windows table.
-/

namespace ExprLexer.Encoding

variable {b b' : UInt8} {c : Char}

theorem toNat_ofNat_byte (b : UInt8) : (Char.ofNat b.toNat).toNat = b.toNat := by
  have small : b.toNat < 256 := b.toNat_lt
  exact val_ofNat (by omega)

theorem ofNat_byte_eq_iff : Char.ofNat b.toNat = c ↔ c.toNat = b.toNat := by
  constructor
  · rintro rfl
    exact toNat_ofNat_byte b
  · intro same
    rw [← same, Char.ofNat_toNat]

theorem ofNat_toNat_eq_iff (small : c.toNat < 0x100) :
    UInt8.ofNat c.toNat = b ↔ Char.ofNat b.toNat = c := by
  rw [ofNat_byte_eq_iff]
  constructor
  · rintro rfl
    rw [UInt8.toNat_ofNat']
    omega
  · intro same
    rw [same, UInt8.ofNat_toNat]

/-- Bytes that stand for themselves below a limit. -/
theorem some_ofNat_eq_iff {limit : Nat} (small : limit ≤ 0x100) {bytes : List UInt8} :
    (if c.toNat < limit then some [UInt8.ofNat c.toNat] else none) = some bytes ↔
      ∃ b : UInt8, bytes = [b] ∧ b.toNat < limit ∧ Char.ofNat b.toNat = c := by
  constructor
  · intro encodes
    by_cases inside : c.toNat < limit
    · rw [if_pos inside] at encodes
      have same : Char.ofNat (UInt8.ofNat c.toNat).toNat = c :=
        (ofNat_toNat_eq_iff (by omega)).mp rfl
      refine ⟨UInt8.ofNat c.toNat, (Option.some.inj encodes).symm, ?_, same⟩
      rw [← ofNat_byte_eq_iff.mp same]
      exact inside
    · rw [if_neg inside] at encodes
      cases encodes
  · rintro ⟨b, rfl, inside, char⟩
    have same := ofNat_byte_eq_iff.mp char
    rw [if_pos (by omega), (ofNat_toNat_eq_iff (by omega)).mpr char]

namespace Scheme

/-- It is enough that a scheme reads each byte on its own and writes the bytes that it reads. -/
theorem faithful_of_bytes {s : Scheme} (char? : UInt8 → Option Char)
    (front : ∀ b rest c extra, s.front b rest = .char c extra ↔ char? b = some c ∧ extra = 0)
    (byte : ∀ c bytes, s.encodeChar? c = some bytes ↔ ∃ b, bytes = [b] ∧ char? b = some c) :
    s.Faithful where
  exists_cons {c bytes} encodes := by
    obtain ⟨b, rfl, -⟩ := (byte c bytes).mp encodes
    exact ⟨b, [], rfl⟩
  reads {c b more} encodes rest := by
    obtain ⟨b', same, char⟩ := (byte c (b :: more)).mp encodes
    obtain ⟨rfl, rfl⟩ := List.cons.inj same
    exact (front b rest c 0).mpr ⟨char, rfl⟩
  writes {b bytes c extra} read := by
    obtain ⟨char, rfl⟩ := (front b bytes c extra).mp read
    exact ⟨[], bytes, rfl, rfl, (byte c [b]).mpr ⟨b, rfl, char⟩⟩

theorem latin1_faithful : Scheme.latin1.Faithful := by
  apply faithful_of_bytes fun b => some (Char.ofNat b.toNat)
  · intro b rest c extra
    show Front.char (Char.ofNat b.toNat) 0 = .char c extra ↔ _
    rw [Front.char.injEq, Option.some.injEq, eq_comm (a := 0)]
  · intro c bytes
    show (if c.toNat < 0x100 then some [UInt8.ofNat c.toNat] else none) = some bytes ↔ _
    rw [some_ofNat_eq_iff (Nat.le_refl _)]
    refine exists_congr fun b => and_congr_right fun _ => ?_
    rw [Option.some.injEq]
    exact and_iff_right b.toNat_lt

theorem ascii_faithful : Scheme.ascii.Faithful := by
  apply faithful_of_bytes fun b => if b.toNat < 0x80 then some (Char.ofNat b.toNat) else none
  · intro b rest c extra
    show (if b < 0x80 then Front.char (Char.ofNat b.toNat) 0 else .bad 1 .beyondAscii) = _ ↔ _
    by_cases small : b.toNat < 0x80
    · rw [if_pos (UInt8.lt_iff_toNat_lt.mpr small), if_pos small, Front.char.injEq,
        Option.some.injEq, eq_comm (a := 0)]
    · rw [if_neg (mt UInt8.lt_iff_toNat_lt.mp small), if_neg small]
      simp
  · intro c bytes
    show (if c.toNat < 0x80 then some [UInt8.ofNat c.toNat] else none) = some bytes ↔ _
    rw [some_ofNat_eq_iff (by decide)]
    refine exists_congr fun b => and_congr_right fun _ => ?_
    by_cases small : b.toNat < 0x80 <;> simp [small]

end Scheme

/-! ### The Windows table -/

namespace Cp1252

/-- No character of the table stands there twice. -/
theorem upper_inj : ∀ i < 32, ∀ j < 32, upper[i]? = upper[j]? → upper[i]? = some none ∨ i = j := by
  decide

/-- The characters of the table are none of those that bytes stand for by themselves. -/
theorem upper_large : ∀ c ∈ upper.filterMap id, 0x100 ≤ c.toNat := by
  have all : ((upper.filterMap id).all fun c => 0x100 ≤ c.toNat) = true := by decide
  intro c member
  exact of_decide_eq_true (List.all_eq_true.mp all c member)

/-- A byte stands for itself or for a character of the table. -/
theorem char?_cases (char : char? b = some c) :
    c.toNat = b.toNat ∨
      0x80 ≤ b.toNat ∧ b.toNat < 0xA0 ∧ upper[b.toNat - 0x80]? = some (some c) ∧
        0x100 ≤ c.toNat := by
  unfold char? at char
  by_cases self : b < 0x80 ∨ 0xA0 ≤ b
  · rw [if_pos self] at char
    exact .inl (ofNat_byte_eq_iff.mp (Option.some.inj char))
  · rw [if_neg self] at char
    rw [not_or, UInt8.lt_iff_toNat_lt, UInt8.le_iff_toNat_le] at self
    have low : ¬ b.toNat < 0x80 := self.1
    have high : ¬ 0xA0 ≤ b.toNat := self.2
    have entry : upper[b.toNat - 0x80]? = some (some c) := Option.join_eq_some_iff.mp char
    have inside : c ∈ upper.filterMap id :=
      List.mem_filterMap.mpr ⟨some c, List.mem_of_getElem? entry, rfl⟩
    exact .inr ⟨by omega, by omega, entry, upper_large c inside⟩

theorem char?_inj (char : char? b = some c) (char' : char? b' = some c) : b = b' := by
  have below : b.toNat < 256 ∧ b'.toNat < 256 := ⟨b.toNat_lt, b'.toNat_lt⟩
  apply UInt8.toNat_inj.mp
  rcases char?_cases char with self | ⟨low, high, entry, large⟩
  · rcases char?_cases char' with self' | ⟨-, -, -, large⟩
    · omega
    · omega
  · rcases char?_cases char' with self' | ⟨low', high', entry', -⟩
    · omega
    · rcases upper_inj _ (by omega) _ (by omega) (entry.trans entry'.symm) with none_ | same
      · rw [entry] at none_
        cases none_
      · omega

theorem byte?_eq_some_iff : byte? c = some b ↔ char? b = some c := by
  constructor
  · intro found
    have char := List.find?_some found
    exact of_decide_eq_true char
  · intro char
    have listed : b ∈ (List.range 0x100).map UInt8.ofNat :=
      List.mem_map.mpr ⟨b.toNat, List.mem_range.mpr b.toNat_lt, UInt8.ofNat_toNat⟩
    cases found : byte? c with
    | none =>
      have missing := List.find?_eq_none.mp found b listed
      exact absurd (decide_eq_true char) missing
    | some b' =>
      have char' := List.find?_some found
      rw [char?_inj char (of_decide_eq_true char')]

end Cp1252

theorem Scheme.cp1252_faithful : Scheme.cp1252.Faithful := by
  apply faithful_of_bytes Cp1252.char?
  · intro b rest c extra
    show Cp1252.front b rest = .char c extra ↔ _
    unfold Cp1252.front
    split
    · rename_i d char
      rw [char, Front.char.injEq, Option.some.injEq, eq_comm (a := 0)]
    · rename_i none_
      simp [none_]
  · intro c bytes
    show (Cp1252.byte? c).map ([·]) = some bytes ↔ _
    rw [Option.map_eq_some_iff]
    refine exists_congr fun b => ?_
    rw [Cp1252.byte?_eq_some_iff, and_comm, eq_comm]

end ExprLexer.Encoding
