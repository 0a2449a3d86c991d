import ExprLexer.Proofs.Json.Layout
import ExprLexer.Proofs.Scan.Gap

/-!
# JSON texts read back

The grammar reads the text of a value, in either layout, as the value (`parse?_print`).
-/

namespace ExprLexer.Json

open Text

variable {c : Char} {cs rest : List Char} {l : Layout} {depth fuel n : Nat}

/-! ### Strings -/

theorem readUnit?_hex (unit : n < 0x10000) (rest : List Char) :
    readUnit? (hex lowerDigit 4 n ++ rest) = some (n, rest) := by
  have value : number? 16 (hex lowerDigit 4 n) = some n :=
    number?_hex (fun d => digitValue?_lowerDigit) (by decide) unit
  simp only [hex, List.nil_append, List.cons_append] at value ⊢
  rw [readUnit?, value]
  rfl

/-- The units of a character are read together, as one escape. -/
theorem exists_readEscape?_units (c : Char) (rest : List Char) :
    ∃ text, (units c.toNat).flatMap escapeUnit ++ rest = '\\' :: text ∧
      readEscape? text = some (c, rest) := by
  have range := toNat_ranges c
  unfold units
  by_cases small : c.toNat < 0x10000
  · have high : ¬ isHighSurrogate c.toNat := by
      rw [isHighSurrogate_iff]
      omega
    have low : ¬ isLowSurrogate c.toNat := by
      rw [isLowSurrogate_iff]
      omega
    refine ⟨'u' :: (hex lowerDigit 4 c.toNat ++ rest), ?_, ?_⟩
    · rw [if_pos small, List.flatMap_singleton]
      rfl
    · rw [readEscape?, readUnit?_hex small]
      dsimp only
      rw [if_neg high, if_neg low, Char.ofNat_toNat]
  · -- Beyond the first plane a character is escaped as a pair of surrogates.
    have first : 0xD800 + (c.toNat - 0x10000) / 0x400 < 0x10000 := by omega
    have second : 0xDC00 + (c.toNat - 0x10000) % 0x400 < 0x10000 := by omega
    have high : isHighSurrogate (0xD800 + (c.toNat - 0x10000) / 0x400) := by
      rw [isHighSurrogate_iff]
      omega
    have low : isLowSurrogate (0xDC00 + (c.toNat - 0x10000) % 0x400) := by
      rw [isLowSurrogate_iff]
      omega
    refine ⟨'u' :: (hex lowerDigit 4 (0xD800 + (c.toNat - 0x10000) / 0x400) ++
      '\\' :: 'u' :: (hex lowerDigit 4 (0xDC00 + (c.toNat - 0x10000) % 0x400) ++ rest)), ?_, ?_⟩
    · rw [if_neg small, List.flatMap_cons, List.flatMap_singleton, escapeUnit, escapeUnit]
      simp only [List.cons_append, List.append_assoc]
    · rw [readEscape?, readUnit?_hex first]
      dsimp only
      rw [if_pos high]
      simp only [readUnit?_hex second]
      rw [if_pos low, joinPair_units (by omega), Char.ofNat_toNat]

theorem readString?_escape (escape : readEscape? cs = some (c, rest)) (fuel : Nat) :
    readString? (fuel + 1) ('\\' :: cs) =
      (readString? fuel rest).map fun (ds, after) => (c :: ds, after) := by
  rw [readString?, if_neg (by decide), if_pos rfl, escape]

theorem readString?_escapeChar (c : Char) (rest : List Char) (fuel : Nat) :
    readString? (fuel + 1) (escapeChar c ++ rest) =
      (readString? fuel rest).map fun (ds, after) => (c :: ds, after) := by
  have short : ∀ d e : Char, readEscape? (e :: rest) = some (d, rest) → c = d →
      readString? (fuel + 1) (['\\', e] ++ rest) =
        (readString? fuel rest).map fun (ds, after) => (c :: ds, after) := by
    rintro d e escape rfl
    exact readString?_escape escape fuel
  unfold escapeChar
  by_cases quote : c = '"'
  · rw [if_pos quote]
    exact short '"' '"' rfl quote
  by_cases slash : c = '\\'
  · rw [if_neg quote, if_pos slash]
    exact short '\\' '\\' rfl slash
  by_cases feed : c = '\n'
  · rw [if_neg quote, if_neg slash, if_pos feed]
    exact short '\n' 'n' rfl feed
  by_cases return_ : c = '\r'
  · rw [if_neg quote, if_neg slash, if_neg feed, if_pos return_]
    exact short '\r' 'r' rfl return_
  by_cases tab : c = '\t'
  · rw [if_neg quote, if_neg slash, if_neg feed, if_neg return_, if_pos tab]
    exact short '\t' 't' rfl tab
  by_cases back : c = '\x08'
  · rw [if_neg quote, if_neg slash, if_neg feed, if_neg return_, if_neg tab, if_pos back]
    exact short '\x08' 'b' rfl back
  by_cases page : c = '\x0c'
  · rw [if_neg quote, if_neg slash, if_neg feed, if_neg return_, if_neg tab, if_neg back,
      if_pos page]
    exact short '\x0c' 'f' rfl page
  rw [if_neg quote, if_neg slash, if_neg feed, if_neg return_, if_neg tab, if_neg back,
    if_neg page]
  by_cases narrow : ' ' ≤ c ∧ c ≤ '~'
  · rw [if_pos narrow, List.singleton_append, readString?, if_neg quote, if_neg slash,
      if_neg (Char.not_lt.mpr narrow.1)]
  · obtain ⟨text, units_, escape⟩ := exists_readEscape?_units c rest
    rw [if_neg narrow, units_]
    exact readString?_escape escape fuel

/-- One more than the number of characters is fuel enough for a string. -/
theorem readString?_flatMap (cs rest : List Char) (enough : cs.length < fuel) :
    readString? fuel (cs.flatMap escapeChar ++ '"' :: rest) = some (cs, rest) := by
  induction cs generalizing fuel with
  | nil =>
    obtain ⟨fuel, rfl⟩ := Nat.exists_eq_add_of_lt enough
    rfl
  | cons c cs ih =>
    cases fuel with
    | zero => cases enough
    | succ fuel =>
      rw [List.flatMap_cons, List.append_assoc, readString?_escapeChar,
        ih (Nat.lt_of_succ_lt_succ enough)]
      rfl

theorem escapeChar_ne_nil (c : Char) : escapeChar c ≠ [] := by
  intro nothing
  have read := readString?_escapeChar c ['"'] 1
  rw [nothing] at read
  cases read

theorem length_le_flatMap (cs : List Char) : cs.length ≤ (cs.flatMap escapeChar).length := by
  induction cs with
  | nil => exact Nat.le_refl 0
  | cons c cs ih =>
    have one := List.length_pos_iff.mpr (escapeChar_ne_nil c)
    rw [List.flatMap_cons, List.length_append, List.length_cons]
    omega

theorem length_add_two_le_stringText (cs : List Char) : cs.length + 2 ≤ (stringText cs).length := by
  have inside := length_le_flatMap cs
  rw [stringText, List.length_cons, List.length_append, List.length_singleton]
  omega

/-! ### Numbers -/

/-- The text does not go on with a number that stands in front of it. -/
def Stops (rest : List Char) : Prop :=
  ∀ c ∈ rest.head?, c.isDigit = false ∧ c ≠ '.' ∧ c ≠ 'e' ∧ c ≠ 'E'

theorem readWhole?_toDigits (stops : Stops rest) (n : Nat) :
    readWhole? (Nat.toDigits 10 n ++ rest) = some (Nat.toDigits 10 n, rest) := by
  rcases Nat.eq_zero_or_pos n with rfl | positive
  · rfl
  obtain ⟨c, cs, digits, other⟩ := toDigits_ne_zero_head positive
  have all := isDigit_toDigits n
  have stop : ∀ d ∈ rest.head?, d.isDigit = false := fun d head => (stops d head).1
  have taken := takeWhile_append all stop
  have dropped := dropWhile_append all stop
  rw [digits] at all taken dropped ⊢
  have first : c.isDigit = true := all c List.mem_cons_self
  unfold readWhole?
  split
  · rename_i same
    exact absurd (List.cons.inj same).1 other
  · rename_i d ds same
    obtain ⟨rfl, -⟩ := List.cons.inj same
    rw [if_pos first, taken, dropped]
  · rename_i nothing
    cases nothing

theorem readFraction?_stops (stops : Stops rest) : readFraction? rest = none := by
  unfold readFraction?
  split
  · rename_i more
    exact absurd rfl (stops '.' rfl).2.1
  · rfl

theorem readExponent?_stops (stops : Stops rest) : readExponent? rest = none := by
  unfold readExponent?
  split
  · rename_i e more
    obtain ⟨-, -, lower, upper⟩ := stops e rfl
    rw [if_neg (not_or.mpr ⟨lower, upper⟩)]
  · rfl

theorem readNumber?_toString (stops : Stops rest) (i : Int) :
    readNumber? ((toString i).toList ++ rest) = some (.int i, rest) := by
  have value : ∀ n : Nat, number? 10 (Nat.toDigits 10 n ++ []) = some n := by
    intro n
    rw [List.append_nil]
    exact number?_toDigits n
  cases i with
  | ofNat n =>
    have unsigned : ∀ more, Nat.toDigits 10 n ++ rest ≠ '-' :: more := by
      intro more same
      obtain ⟨c, cs, digits⟩ := List.exists_cons_of_ne_nil (Nat.toDigits_ne_nil (b := 10) (n := n))
      have digit := isDigit_toDigits n c (digits ▸ List.mem_cons_self)
      rw [digits] at same
      obtain ⟨rfl, -⟩ := List.cons.inj same
      exact absurd digit (by decide)
    rw [Int.ofNat_eq_natCast, toList_toString_natCast]
    unfold readNumber?
    split
    rename_i negative s sign
    split at sign
    · rename_i more same
      exact absurd same (unsigned more)
    · obtain ⟨rfl, rfl⟩ := Prod.mk.inj sign
      simp only [readWhole?_toDigits stops, readFraction?_stops stops,
        readExponent?_stops stops, value]
      rfl
  | negSucc n =>
    rw [toList_toString_negSucc, List.cons_append]
    unfold readNumber?
    simp only [readWhole?_toDigits stops, readFraction?_stops stops, readExponent?_stops stops,
      value]
    rfl

/-- A text that starts like a number is read as one. -/
theorem readValue?_number (start : c = '-' ∨ c.isDigit = true) (cs : List Char) (fuel : Nat) :
    readValue? (fuel + 1) (c :: cs) = readNumber? (c :: cs) := by
  have other : ∀ (d : Char) (ds : List Char), d ≠ '-' → d.isDigit = false →
      c :: cs ≠ d :: ds := by
    rintro d ds minus digit same
    obtain ⟨rfl, -⟩ := List.cons.inj same
    rcases start with same | first
    · exact minus same
    · rw [digit] at first
      cases first
  unfold readValue?
  split
  · next same => exact absurd same (other 'n' _ (by decide) (by decide))
  · next same => exact absurd same (other 't' _ (by decide) (by decide))
  · next same => exact absurd same (other 'f' _ (by decide) (by decide))
  · next same => exact absurd same (other '"' _ (by decide) (by decide))
  · next same => exact absurd same (other '[' _ (by decide) (by decide))
  · next same => exact absurd same (other '\x7b' _ (by decide) (by decide))
  · rfl

theorem exists_toString_cons (i : Int) :
    ∃ c cs, (toString i).toList = c :: cs ∧ (c = '-' ∨ c.isDigit = true) := by
  cases i with
  | ofNat n =>
    obtain ⟨c, cs, digits⟩ := List.exists_cons_of_ne_nil (Nat.toDigits_ne_nil (b := 10) (n := n))
    have digit := isDigit_toDigits n c (digits ▸ List.mem_cons_self)
    exact ⟨c, cs, (toList_toString_natCast n).trans digits, .inr digit⟩
  | negSucc n => exact ⟨'-', _, toList_toString_negSucc n, .inl rfl⟩

/-! ### Space -/

theorem skipSpace_append {gap : List Char} (blank : Blank gap) (cs : List Char) :
    skipSpace (gap ++ cs) = skipSpace cs :=
  List.dropWhile_append_of_pos blank

theorem skipSpace_cons (solid : isSpace c = false) (cs : List Char) :
    skipSpace (c :: cs) = c :: cs := by
  rw [skipSpace, List.dropWhile_cons, if_neg (by rw [solid]; exact Bool.false_ne_true)]

theorem stops_cons (other : c.isDigit = false ∧ c ≠ '.' ∧ c ≠ 'e' ∧ c ≠ 'E') (cs : List Char) :
    Stops (c :: cs) := by
  intro d head
  obtain rfl := Option.some.inj head
  exact other

theorem stops_append {gap : List Char} (blank : Blank gap) (stops : Stops cs) :
    Stops (gap ++ cs) := by
  cases gap with
  | nil => exact stops
  | cons c gap =>
    have space : isSpace c = true := blank c List.mem_cons_self
    refine stops_cons ?_ (gap ++ cs)
    simp only [isSpace, Bool.or_eq_true, decide_eq_true_eq] at space
    rcases space with ((rfl | rfl) | rfl) | rfl <;> decide

/-! ### Values -/

/-- The text of a value starts with no space and not like the end of an array. -/
theorem exists_print_cons {j : Json} (integral : j.Integral) (l : Layout) (depth : Nat) :
    ∃ c cs, print l depth j = c :: cs ∧ isSpace c = false ∧ c ≠ ']' := by
  have opened : ∀ (opening closing : Char) (items : List (List Char)),
      ∃ cs, bracket l depth opening closing items = opening :: cs := by
    intro opening closing items
    unfold bracket
    split
    · exact ⟨_, rfl⟩
    · exact ⟨_, rfl⟩
  cases integral with
  | null => exact ⟨'n', _, rfl, by decide, by decide⟩
  | bool b => cases b <;> exact ⟨_, _, rfl, by decide, by decide⟩
  | int i =>
    obtain ⟨c, cs, text, start⟩ := exists_toString_cons i
    have other : ∀ d : Char, d ≠ '-' → d.isDigit = false → c ≠ d := by
      rintro d minus digit rfl
      rcases start with same | first
      · exact minus same
      · rw [digit] at first
        cases first
    refine ⟨c, cs, text, ?_, other ']' (by decide) (by decide)⟩
    simp [isSpace, other ' ' (by decide) (by decide), other '\n' (by decide) (by decide),
      other '\r' (by decide) (by decide), other '\t' (by decide) (by decide)]
  | string s => exact ⟨'"', _, rfl, by decide, by decide⟩
  | array all =>
    obtain ⟨cs, text⟩ := opened '[' ']' (printItems l (depth + 1) _)
    exact ⟨'[', cs, text, by decide, by decide⟩
  | object all =>
    obtain ⟨cs, text⟩ := opened '\x7b' '\x7d' (printMembers l (depth + 1) _)
    exact ⟨'\x7b', cs, text, by decide, by decide⟩

/-- The grammar reads the text of the value, with its length as fuel. -/
def Reads (l : Layout) (j : Json) : Prop :=
  ∀ {depth fuel : Nat} {rest : List Char}, (print l depth j).length ≤ fuel → Stops rest →
    readValue? fuel (print l depth j ++ rest) = some (j, rest)

theorem reads_int (l : Layout) (i : Int) : Reads l (.int i) := by
  intro depth fuel rest enough stops
  obtain ⟨c, cs, text, start⟩ := exists_toString_cons i
  have number := readNumber?_toString stops i
  rw [print] at enough ⊢
  rw [text] at enough number ⊢
  cases fuel with
  | zero => cases enough
  | succ fuel => exact (readValue?_number start _ fuel).trans number

theorem reads_string (l : Layout) (s : String) : Reads l (.string s) := by
  intro depth fuel rest enough stops
  have inside := length_add_two_le_stringText s.toList
  rw [print] at enough ⊢
  cases fuel with
  | zero => omega
  | succ fuel =>
    rw [stringText, List.cons_append, List.append_assoc, List.singleton_append, readValue?,
      readString?_flatMap _ _ (by omega), Option.map_some]
    dsimp only
    rw [String.ofList_toList]

section Nested

variable {x : Json} {xs : List Json} {m : String × Json} {ms : List (String × Json)}
  {gap : List Char}

theorem exists_items_cons (integral : x.Integral) (l : Layout) (depth : Nat) (xs : List Json) :
    ∃ c cs, ((printItems l depth (x :: xs)).intersperse (l.separator depth)).flatten = c :: cs ∧
      isSpace c = false ∧ c ≠ ']' := by
  obtain ⟨c, cs, start, solid, other⟩ := exists_print_cons integral l depth
  obtain ⟨more, text⟩ := exists_flatten_cons start (l.separator depth) (printItems l depth xs)
  exact ⟨c, more, text, solid, other⟩

/-- Each item leaves fuel for the ones behind it. -/
theorem readItems?_printItems (integral : ∀ y ∈ x :: xs, y.Integral)
    (reads : ∀ y ∈ x :: xs, Reads l y) (blank : Blank gap)
    (enough : ((printItems l depth (x :: xs)).intersperse (l.separator depth)).flatten.length <
      fuel) :
    readItems? fuel (((printItems l depth (x :: xs)).intersperse (l.separator depth)).flatten ++
      (gap ++ ']' :: rest)) = some (x :: xs, rest) := by
  induction xs generalizing x fuel with
  | nil =>
    rw [printItems, printItems, List.intersperse_singleton, List.flatten_singleton] at enough ⊢
    cases fuel with
    | zero => cases enough
    | succ fuel =>
      rw [readItems?, reads x List.mem_cons_self (Nat.le_of_lt_succ enough)
        (stops_append blank (stops_cons (by decide) rest))]
      dsimp only
      rw [skipSpace_append blank, skipSpace_cons (by decide)]
      rfl
  | cons y ys ih =>
    obtain ⟨first, later⟩ := List.forall_mem_cons.mp reads
    obtain ⟨-, within⟩ := List.forall_mem_cons.mp integral
    obtain ⟨space, separator, spaces⟩ := exists_separator l depth
    obtain ⟨c, cs, start, solid, -⟩ :=
      exists_items_cons (within y List.mem_cons_self) l depth ys
    rw [printItems, printItems, flatten_intersperse_cons, ← printItems, separator] at enough ⊢
    rw [List.length_append, List.length_append, List.length_cons] at enough
    cases fuel with
    | zero => cases enough
    | succ fuel =>
      rw [separator] at ih start
      simp only [List.append_assoc, List.cons_append]
      rw [readItems?, first (by omega) (stops_cons (by decide) _)]
      dsimp only
      rw [skipSpace_cons (by decide)]
      show (readItems? fuel (skipSpace (space ++ _))).map _ = _
      rw [skipSpace_append spaces, start, List.cons_append, skipSpace_cons solid,
        ← List.cons_append, ← start, ih within later (by omega)]
      rfl

def memberText (l : Layout) (depth : Nat) (m : String × Json) : List Char :=
  stringText m.1.toList ++ ':' :: ' ' :: print l depth m.2

theorem printMembers_cons (l : Layout) (depth : Nat) (m : String × Json)
    (ms : List (String × Json)) :
    printMembers l depth (m :: ms) = memberText l depth m :: printMembers l depth ms := rfl

theorem exists_members_cons (l : Layout) (depth : Nat) (m : String × Json)
    (ms : List (String × Json)) : ∃ cs,
      ((printMembers l depth (m :: ms)).intersperse (l.separator depth)).flatten = '"' :: cs :=
  exists_flatten_cons rfl (l.separator depth) (printMembers l depth ms)

/-- A member is read up to what stands behind its value. -/
theorem readMembers?_member (integral : m.2.Integral) (reads : Reads l m.2) (stops : Stops rest)
    (enough : (memberText l depth m).length ≤ fuel) :
    readMembers? (fuel + 1) (memberText l depth m ++ rest) =
      match skipSpace rest with
      | ',' :: rest =>
        (readMembers? fuel (skipSpace rest)).map fun (xs, rest) => (m :: xs, rest)
      | '\x7d' :: rest => some ([m], rest)
      | _ => none := by
  have inside := length_add_two_le_stringText m.1.toList
  obtain ⟨c, cs, start, solid, -⟩ := exists_print_cons integral l depth
  rw [memberText, List.length_append, List.length_cons, List.length_cons] at enough
  have short : m.1.toList.length < fuel := by omega
  have name := readString?_flatMap m.1.toList (':' :: ' ' :: (print l depth m.2 ++ rest)) short
  have value : readValue? fuel (skipSpace (' ' :: (print l depth m.2 ++ rest))) =
      some (m.2, rest) := by
    have solid_ : skipSpace (' ' :: (print l depth m.2 ++ rest)) = print l depth m.2 ++ rest := by
      rw [start]
      exact skipSpace_cons solid _
    rw [solid_, reads (by omega) stops]
  simp only [memberText, stringText, List.cons_append, List.append_assoc, List.nil_append]
  rw [readMembers?, name]
  dsimp only
  rw [skipSpace_cons (by decide)]
  split
  · next same =>
    obtain ⟨-, rfl⟩ := List.cons.inj same
    rw [String.ofList_toList]
    exact value.symm ▸ rfl
  · next other => exact absurd rfl (other _)

theorem readMembers?_printMembers (integral : ∀ k ∈ m :: ms, k.2.Integral)
    (reads : ∀ k ∈ m :: ms, Reads l k.2) (blank : Blank gap)
    (enough :
      ((printMembers l depth (m :: ms)).intersperse (l.separator depth)).flatten.length < fuel) :
    readMembers? fuel
      (((printMembers l depth (m :: ms)).intersperse (l.separator depth)).flatten ++
        (gap ++ '\x7d' :: rest)) = some (m :: ms, rest) := by
  induction ms generalizing m fuel with
  | nil =>
    rw [printMembers_cons, printMembers, List.intersperse_singleton, List.flatten_singleton]
      at enough ⊢
    cases fuel with
    | zero => cases enough
    | succ fuel =>
      rw [readMembers?_member (integral m List.mem_cons_self) (reads m List.mem_cons_self)
        (stops_append blank (stops_cons (by decide) rest)) (Nat.le_of_lt_succ enough),
        skipSpace_append blank, skipSpace_cons (by decide)]
      rfl
  | cons k ks ih =>
    obtain ⟨first, later⟩ := List.forall_mem_cons.mp reads
    obtain ⟨whole, within⟩ := List.forall_mem_cons.mp integral
    obtain ⟨space, separator, spaces⟩ := exists_separator l depth
    obtain ⟨cs, start⟩ := exists_members_cons l depth k ks
    rw [printMembers_cons, printMembers_cons, flatten_intersperse_cons, ← printMembers_cons,
      separator] at enough ⊢
    rw [List.length_append, List.length_append, List.length_cons] at enough
    cases fuel with
    | zero => cases enough
    | succ fuel =>
      rw [separator] at ih start
      rw [List.append_assoc, List.cons_append, List.cons_append,
        readMembers?_member whole first (stops_cons (by decide) _) (by omega),
        skipSpace_cons (by decide)]
      show (readMembers? fuel (skipSpace (space ++ _ ++ _))).map _ = _
      rw [List.append_assoc, skipSpace_append spaces, start, List.cons_append,
        skipSpace_cons (by decide), ← List.cons_append, ← start, ih within later (by omega)]
      rfl

theorem reads_array {items : List Json} (integral : ∀ x ∈ items, x.Integral)
    (reads : ∀ x ∈ items, Reads l x) : Reads l (.array items) := by
  intro depth fuel rest enough stops
  rw [print] at enough ⊢
  cases fuel with
  | zero => cases items <;> cases enough
  | succ fuel =>
    cases items with
    | nil => rfl
    | cons x xs =>
      have inside := length_lt_bracket l depth '[' ']' (print l (depth + 1) x)
        (printItems l (depth + 1) xs)
      have room : ((printItems l (depth + 1) (x :: xs)).intersperse
          (l.separator (depth + 1))).flatten.length < fuel := by
        rw [printItems] at enough ⊢
        omega
      obtain ⟨c, cs, start, solid, other⟩ :=
        exists_items_cons (integral x List.mem_cons_self) l (depth + 1) xs
      rw [printItems, bracket_cons_append, readValue?, ← printItems,
        skipSpace_append (blank_newline l (depth + 1)), start, List.cons_append,
        skipSpace_cons solid]
      split
      · next same => exact absurd (List.cons.inj same).1 other
      · rw [← List.cons_append, ← start,
          readItems?_printItems integral reads (blank_newline l depth) room]
        rfl

theorem reads_object {members : List (String × Json)} (integral : ∀ m ∈ members, m.2.Integral)
    (reads : ∀ m ∈ members, Reads l m.2) : Reads l (.object members) := by
  intro depth fuel rest enough stops
  rw [print] at enough ⊢
  cases fuel with
  | zero => cases members <;> cases enough
  | succ fuel =>
    cases members with
    | nil => rfl
    | cons m ms =>
      have inside := length_lt_bracket l depth '\x7b' '\x7d' (memberText l (depth + 1) m)
        (printMembers l (depth + 1) ms)
      have room : ((printMembers l (depth + 1) (m :: ms)).intersperse
          (l.separator (depth + 1))).flatten.length < fuel := by
        rw [printMembers_cons] at enough ⊢
        omega
      obtain ⟨cs, start⟩ := exists_members_cons l (depth + 1) m ms
      rw [printMembers_cons, bracket_cons_append, readValue?, ← printMembers_cons,
        skipSpace_append (blank_newline l (depth + 1)), start, List.cons_append,
        skipSpace_cons (by decide)]
      split
      · next same => cases (List.cons.inj same).1
      · rw [← List.cons_append, ← start,
          readMembers?_printMembers integral reads (blank_newline l depth) room]
        rfl

end Nested

theorem reads_print {j : Json} (integral : j.Integral) (l : Layout) : Reads l j := by
  induction integral with
  | null =>
    intro depth fuel rest enough stops
    cases fuel with
    | zero => cases enough
    | succ fuel => rfl
  | bool b =>
    intro depth fuel rest enough stops
    cases fuel with
    | zero => cases b <;> cases enough
    | succ fuel => cases b <;> rfl
  | int i => exact reads_int l i
  | string s => exact reads_string l s
  | array all ih => exact reads_array all ih
  | object all ih => exact reads_object all ih

/-- The text of a value, whatever space follows it, is read as the value. -/
theorem parse?_print {j : Json} (integral : j.Integral) (l : Layout) {after : List Char}
    (blank : Blank after) : parse? (print l 0 j ++ after) = some j := by
  have stops : Stops after := by
    have nothing : Stops [] := nofun
    have stops := stops_append blank nothing
    rwa [List.append_nil] at stops
  have nothing : skipSpace after = [] := by
    have skipped := skipSpace_append blank []
    rwa [List.append_nil] at skipped
  have enough : (print l 0 j).length ≤ (print l 0 j ++ after).length + 1 := by
    rw [List.length_append]
    omega
  obtain ⟨c, cs, start, solid, -⟩ := exists_print_cons integral l 0
  have solid_ : skipSpace (print l 0 j ++ after) = print l 0 j ++ after := by
    rw [start]
    exact skipSpace_cons solid _
  rw [parse?, solid_, reads_print integral l enough stops]
  dsimp only
  rw [if_pos nothing]

end ExprLexer.Json
