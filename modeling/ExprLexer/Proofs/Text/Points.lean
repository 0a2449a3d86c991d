import ExprLexer.Text.Units
import ExprLexer.Text.Veil

/-!
# Code points of strings

The code points that hold a string are those of its characters (`toString?_eq_some_iff`). No veil
changes them (`veil_ofString`).
-/

namespace ExprLexer.Text

theorem toNat_lt (c : Char) : c.toNat < 0x110000 := by
  have valid := c.valid
  rcases valid with low | high
  · exact Nat.lt_trans low (by decide)
  · exact high.2

namespace Points

theorem lt_of_mem_ofChars {cs : List Char} : ∀ n ∈ ofChars cs, n < 0x110000 :=
  List.forall_mem_map.mpr fun c _ => toNat_lt c

theorem toChars?_ofChars (cs : List Char) : toChars? (ofChars cs) = some cs := by
  induction cs with
  | nil => rfl
  | cons c cs ih =>
    have valid : c.toNat.isValidChar := c.valid
    rw [ofChars, List.map_cons, toChars?, if_pos valid, ← ofChars, ih, Option.map_some,
      Char.ofNat_toNat]

theorem ofChars_of_toChars? {t : Points} {cs : List Char} (read : toChars? t = some cs) :
    ofChars cs = t := by
  induction t generalizing cs with
  | nil =>
    cases read
    rfl
  | cons n t ih =>
    rw [toChars?] at read
    split at read
    · next valid =>
      obtain ⟨ds, later, rfl⟩ := Option.map_eq_some_iff.mp read
      have point : (Char.ofNat n).toNat = n := by
        rw [Char.ofNat, dif_pos valid]
        rfl
      rw [ofChars, List.map_cons, ← ofChars, ih later, point]
    · cases read

theorem ofChars_injective : Function.Injective ofChars := by
  intro cs ds same
  exact Option.some.inj (by rw [← toChars?_ofChars cs, same, toChars?_ofChars])

theorem toString?_ofString (s : String) : toString? (ofString s) = some s := by
  rw [toString?, ofString, toChars?_ofChars, Option.map_some, String.ofList_toList]

theorem toString?_eq_some_iff {t : Points} {s : String} :
    toString? t = some s ↔ t = ofString s := by
  refine ⟨fun read => ?_, fun same => same ▸ toString?_ofString s⟩
  obtain ⟨cs, chars, rfl⟩ := Option.map_eq_some_iff.mp read
  rw [ofString, String.toList_ofList, ofChars_of_toChars? chars]

theorem ofString_injective : Function.Injective ofString := by
  intro s t same
  exact Option.some.inj (by rw [← toString?_ofString s, same, toString?_ofString])

end Points

theorem veil_ofString (shift : Nat) (s : String) : veil shift (Points.ofString s) = s := by
  have same : ∀ c : Char,
      Char.ofNat (if Points.isSurrogate c.toNat then c.toNat + shift else c.toNat) = c := by
    intro c
    have ranges := toNat_ranges c
    have other : Points.isSurrogate c.toNat = false := by
      simp [Points.isSurrogate]
      omega
    rw [other, if_neg Bool.false_ne_true, Char.ofNat_toNat]
  have chars : s.toList.map (fun c =>
      Char.ofNat (if Points.isSurrogate c.toNat then c.toNat + shift else c.toNat)) = s.toList :=
    (List.map_congr_left fun c _ => same c).trans (List.map_id _)
  rw [veil, Points.ofString, Points.ofChars, List.map_map]
  exact (congrArg String.ofList chars).trans String.ofList_toList

end ExprLexer.Text
