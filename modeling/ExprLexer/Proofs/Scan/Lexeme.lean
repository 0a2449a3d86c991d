import ExprLexer.Scan.Lexeme
import ExprLexer.Proofs.Scan.Gap

/-!
# Lexemes as a grammar

`Fits` gives the texts of each kind and `GoesOn` the characters that a lexeme would take along.
`read_append` and `read_grammar` show that `read` finds just the fitting lexeme that does not go on.
-/

namespace ExprLexer.Lexeme

/-- The texts that belong to a kind. The kinds without a constructor have none. -/
inductive Fits : Lexeme → Prop
  | integer {whole : List Char} (digit : whole ≠ []) (digits : ∀ c ∈ whole, c.isDigit = true) :
      Fits ⟨.literal, whole⟩
  | decimal {whole fraction : List Char} (digit : whole ≠ [])
      (digits : ∀ c ∈ whole, c.isDigit = true) (places : ∀ c ∈ fraction, c.isDigit = true) :
      Fits ⟨.literal, whole ++ '.' :: fraction⟩
  | keyword {word : String} (member : word ∈ keywords) : Fits ⟨.keyword, word.toList⟩
  | identifier {c : Char} {cs : List Char} (start : isWordStart c = true)
      (chars : ∀ d ∈ cs, isWordChar d = true) (other : String.ofList (c :: cs) ∉ keywords) :
      Fits ⟨.identifier, c :: cs⟩
  | operator {c : Char} (member : c ∈ operators) : Fits ⟨.operator, [c]⟩
  | delimiter {c : Char} (member : c ∈ delimiters) : Fits ⟨.delimiter, [c]⟩
  | unknown {c : Char} (blank : Text.isBlank c = false) (word : isWordChar c = false)
      (operator : c ∉ operators) (delimiter : c ∉ delimiters) : Fits ⟨.unknown, [c]⟩

/-- The characters that, directly behind a lexeme, would be read with it. Behind a slash these are
the characters that make it a comment. -/
def GoesOn (l : Lexeme) (c : Char) : Prop :=
  match l.kind with
  | .keyword | .identifier => isWordChar c = true
  | .literal => c.isDigit = true ∨ c = '.' ∧ '.' ∉ l.text
  | .operator => l.text = ['/'] ∧ (c = '/' ∨ c = '*')
  | _ => False

/-- The lexeme is the longest one in front of `rest`. -/
def EndsBefore (l : Lexeme) (rest : List Char) : Prop := ∀ c ∈ rest.head?, ¬ l.GoesOn c

/-! ### Classes of characters -/

theorem isDigit_iff {c : Char} : c.isDigit = true ↔ 48 ≤ c.toNat ∧ c.toNat ≤ 57 :=
  Char.isDigit_iff_toNat

theorem isUpper_iff {c : Char} : c.isUpper = true ↔ 65 ≤ c.toNat ∧ c.toNat ≤ 90 :=
  decide_eq_true_iff

theorem isLower_iff {c : Char} : c.isLower = true ↔ 97 ≤ c.toNat ∧ c.toNat ≤ 122 := by
  show (decide ('a'.val ≤ c.val) && decide (c.val ≤ 'z'.val)) = true ↔ _
  rw [Bool.and_eq_true_iff, decide_eq_true_iff, decide_eq_true_iff]
  exact Iff.rfl

theorem isWordStart_iff {c : Char} :
    isWordStart c = true ↔
      65 ≤ c.toNat ∧ c.toNat ≤ 90 ∨ 97 ≤ c.toNat ∧ c.toNat ≤ 122 ∨ c.toNat = 95 := by
  have underscore : c = '_' ↔ c.toNat = 95 := by
    rw [← Char.toNat_inj]
    rfl
  have letter : c.isAlpha = true ↔ c.isUpper = true ∨ c.isLower = true := Bool.or_eq_true_iff
  rw [isWordStart, Bool.or_eq_true_iff, decide_eq_true_iff, letter, isUpper_iff, isLower_iff,
    underscore, or_assoc]

theorem isWordChar_iff {c : Char} :
    isWordChar c = true ↔ isWordStart c = true ∨ c.isDigit = true := by
  simp [isWordChar]

theorem not_isDigit_of_isWordStart {c : Char} (start : isWordStart c = true) :
    c.isDigit = false := by
  rw [isWordStart_iff] at start
  rw [← Bool.not_eq_true, isDigit_iff]
  omega

theorem not_isBlank_of_isWordChar {c : Char} (word : isWordChar c = true) :
    Text.isBlank c = false := by
  rw [isWordChar_iff, isWordStart_iff, isDigit_iff] at word
  simp only [Text.isBlank, Text.isWhiteSpace, Bool.or_eq_false_iff, Bool.and_eq_false_iff,
    beq_eq_false_iff_ne, decide_eq_false_iff_not]
  omega

theorem symbol_plain {c : Char} (member : c ∈ operators ++ delimiters) :
    Text.isBlank c = false ∧ isWordChar c = false := by
  have all : (operators ++ delimiters).all (fun c => !Text.isBlank c && !isWordChar c) = true := by
    decide
  simpa using List.all_eq_true.mp all c member

theorem symbols_disjoint {c : Char} (member : c ∈ delimiters) : c ∉ operators := by
  have all : delimiters.all (fun c => !operators.contains c) = true := by decide
  simpa using List.all_eq_true.mp all c member

/-! ### Numerals -/

theorem numeral_integer {whole rest : List Char} (digits : ∀ c ∈ whole, c.isDigit = true)
    (stop : ∀ c ∈ rest.head?, ¬(c.isDigit = true ∨ c = '.')) :
    numeral (whole ++ rest) = (whole, rest) := by
  have behind : ∀ c ∈ rest.head?, c.isDigit = false := by
    intro c head
    simpa using fun digit => stop c head (Or.inl digit)
  unfold numeral
  rw [takeWhile_append digits behind, dropWhile_append digits behind]
  split
  · exact absurd (Or.inr rfl) (stop '.' rfl)
  · rfl

theorem numeral_decimal {whole fraction rest : List Char}
    (digits : ∀ c ∈ whole, c.isDigit = true) (places : ∀ c ∈ fraction, c.isDigit = true)
    (stop : ∀ c ∈ rest.head?, c.isDigit = false) :
    numeral (whole ++ '.' :: (fraction ++ rest)) = (whole ++ '.' :: fraction, rest) := by
  have behind : ∀ c ∈ ('.' :: (fraction ++ rest)).head?, c.isDigit = false := by
    rintro c head
    obtain rfl := Option.some.inj head
    rfl
  unfold numeral
  rw [takeWhile_append digits behind, dropWhile_append digits behind]
  simp only [takeWhile_append places stop, dropWhile_append places stop]

/-! ### The reader against the grammar -/

theorem read_numeral {c : Char} (digit : c.isDigit = true) (cs : List Char) :
    read c cs = (⟨.literal, (numeral (c :: cs)).1⟩, (numeral (c :: cs)).2) := by
  rw [read, if_pos digit]

theorem read_word {c : Char} (start : isWordStart c = true) (cs : List Char) :
    read c cs = (ofWord (c :: cs.takeWhile isWordChar), cs.dropWhile isWordChar) := by
  rw [read, not_isDigit_of_isWordStart start, if_neg Bool.false_ne_true, if_pos start]

theorem read_symbol {c : Char} (other : isWordChar c = false) (cs : List Char) :
    read c cs = (ofSymbol c, cs) := by
  rw [isWordChar, Bool.or_eq_false_iff] at other
  rw [read, other.1, other.2]
  rfl

theorem ofWord_keyword {word : String} (member : word ∈ keywords) :
    ofWord word.toList = ⟨.keyword, word.toList⟩ := by
  have found : keywords.any (·.toList == word.toList) = true :=
    List.any_eq_true.mpr ⟨word, member, beq_self_eq_true _⟩
  rw [ofWord, if_pos found]

theorem ofWord_identifier {text : List Char} (other : String.ofList text ∉ keywords) :
    ofWord text = ⟨.identifier, text⟩ := by
  have missing : ¬ keywords.any (·.toList == text) = true := by
    rw [List.any_eq_true]
    rintro ⟨word, member, same⟩
    rw [← beq_iff_eq.mp same, String.ofList_toList] at other
    exact other member
  rw [ofWord, if_neg missing]

theorem keyword_chars {word : String} (member : word ∈ keywords) :
    ∃ c cs, word.toList = c :: cs ∧ isWordStart c = true ∧ ∀ d ∈ cs, isWordChar d = true := by
  have all : keywords.all (fun word => word.toList.head?.any isWordStart &&
      word.toList.tail.all isWordChar) = true := by decide
  have spelled := List.all_eq_true.mp all word member
  rw [Bool.and_eq_true] at spelled
  cases text : word.toList with
  | nil =>
    rw [text] at spelled
    exact absurd spelled.1 Bool.false_ne_true
  | cons c cs =>
    rw [text] at spelled
    exact ⟨c, cs, rfl, spelled.1, List.all_eq_true.mp spelled.2⟩

theorem read_word_append {c : Char} {cs rest : List Char} (start : isWordStart c = true)
    (chars : ∀ d ∈ cs, isWordChar d = true) (stop : ∀ d ∈ rest.head?, ¬ isWordChar d = true) :
    read c (cs ++ rest) = (ofWord (c :: cs), rest) := by
  have behind : ∀ d ∈ rest.head?, isWordChar d = false :=
    fun d head => Bool.eq_false_iff.mpr (stop d head)
  rw [read_word start, takeWhile_append chars behind, dropWhile_append chars behind]

theorem ofSymbol_operator {c : Char} (member : c ∈ operators) : ofSymbol c = ⟨.operator, [c]⟩ := by
  rw [ofSymbol, if_pos (List.contains_iff_mem.mpr member)]

theorem ofSymbol_delimiter {c : Char} (operator : c ∉ operators) (member : c ∈ delimiters) :
    ofSymbol c = ⟨.delimiter, [c]⟩ := by
  rw [ofSymbol, if_neg (mt List.contains_iff_mem.mp operator),
    if_pos (List.contains_iff_mem.mpr member)]

theorem ofSymbol_unknown {c : Char} (operator : c ∉ operators) (delimiter : c ∉ delimiters) :
    ofSymbol c = ⟨.unknown, [c]⟩ := by
  rw [ofSymbol, if_neg (mt List.contains_iff_mem.mp operator),
    if_neg (mt List.contains_iff_mem.mp delimiter)]

theorem isDigit_of_append {whole behind cs : List Char} {c : Char} (digit : whole ≠ [])
    (digits : ∀ d ∈ whole, d.isDigit = true) (text : whole ++ behind = c :: cs) :
    c.isDigit = true := by
  obtain ⟨d, ds, rfl⟩ := List.exists_cons_of_ne_nil digit
  obtain ⟨rfl, -⟩ := List.cons.inj text
  exact digits d List.mem_cons_self

/-- A fitting lexeme is read back where it does not go on. -/
theorem read_append {l : Lexeme} {rest cs : List Char} {c : Char} (fits : l.Fits)
    (ends : l.EndsBefore rest) (text : l.text ++ rest = c :: cs) : read c cs = (l, rest) := by
  cases fits with
  | @integer whole digit digits =>
    have first : c.isDigit = true := isDigit_of_append digit digits text
    have noPoint : '.' ∉ whole := fun point => absurd (digits _ point) (by decide)
    rw [read_numeral first, ← text, numeral_integer digits]
    intro d head
    simpa [GoesOn, noPoint] using ends d head
  | @decimal whole fraction digit digits places =>
    rw [List.append_assoc, List.cons_append] at text
    have first : c.isDigit = true := isDigit_of_append digit digits text
    rw [read_numeral first, ← text, numeral_decimal digits places]
    intro d head
    simpa [GoesOn] using ends d head
  | @keyword word member =>
    obtain ⟨d, ds, spelled, start, chars⟩ := keyword_chars member
    simp only [spelled, List.cons_append, List.cons.injEq] at text
    obtain ⟨rfl, rfl⟩ := text
    rw [read_word_append start chars ends, ← spelled, ofWord_keyword member]
  | identifier start chars other =>
    simp only [List.cons_append, List.cons.injEq] at text
    obtain ⟨rfl, rfl⟩ := text
    rw [read_word_append start chars ends, ofWord_identifier other]
  | operator member =>
    obtain ⟨rfl, rfl⟩ := List.cons.inj text
    have plain := symbol_plain (List.mem_append_left delimiters member)
    rw [read_symbol plain.2, ofSymbol_operator member]
    rfl
  | delimiter member =>
    obtain ⟨rfl, rfl⟩ := List.cons.inj text
    have plain := symbol_plain (List.mem_append_right operators member)
    rw [read_symbol plain.2, ofSymbol_delimiter (symbols_disjoint member) member]
    rfl
  | unknown blank word operator delimiter =>
    obtain ⟨rfl, rfl⟩ := List.cons.inj text
    rw [read_symbol word, ofSymbol_unknown operator delimiter]
    rfl

theorem numeral_fits {c : Char} (digit : c.isDigit = true) (cs : List Char) :
    Fits ⟨.literal, (numeral (c :: cs)).1⟩ ∧
      EndsBefore ⟨.literal, (numeral (c :: cs)).1⟩ (numeral (c :: cs)).2 := by
  have some_ : (c :: cs).takeWhile Char.isDigit ≠ [] := by
    rw [List.takeWhile_cons_of_pos digit]
    exact List.cons_ne_nil _ _
  unfold numeral
  split
  · refine ⟨.decimal some_ mem_takeWhile mem_takeWhile, fun d head => ?_⟩
    simp [GoesOn, head?_dropWhile head]
  · next noPoint =>
    refine ⟨.integer some_ mem_takeWhile, fun d head => ?_⟩
    rintro (more | ⟨rfl, -⟩)
    · exact absurd more (by simp [head?_dropWhile head])
    · obtain ⟨rest, behind⟩ := List.head?_eq_some_iff.mp head
      exact noPoint rest behind

theorem word_fits {c : Char} (start : isWordStart c = true) (cs : List Char) :
    (ofWord (c :: cs.takeWhile isWordChar)).Fits ∧
      (ofWord (c :: cs.takeWhile isWordChar)).EndsBefore (cs.dropWhile isWordChar) := by
  by_cases member : String.ofList (c :: cs.takeWhile isWordChar) ∈ keywords
  · have keyword := ofWord_keyword member
    rw [String.toList_ofList] at keyword
    rw [keyword]
    refine ⟨?_, fun d head => ?_⟩
    · simpa only [String.toList_ofList] using Fits.keyword member
    · simp [GoesOn, head?_dropWhile head]
  · rw [ofWord_identifier member]
    refine ⟨.identifier start mem_takeWhile member, fun d head => ?_⟩
    simp [GoesOn, head?_dropWhile head]

theorem symbol_fits {c : Char} {cs : List Char} (other : isWordChar c = false)
    (start : filler? (c :: cs) = none) : (ofSymbol c).Fits ∧ (ofSymbol c).EndsBefore cs := by
  obtain ⟨blank, plain⟩ := filler?_eq_none_iff.mp start
  by_cases operator : c ∈ operators
  · rw [ofSymbol_operator operator]
    refine ⟨.operator operator, fun d head => ?_⟩
    rintro ⟨slash, mark⟩
    refine plain (opensComment_cons.mpr ⟨by simpa using slash, ?_⟩)
    rcases mark with rfl | rfl
    · exact Or.inl head
    · exact Or.inr head
  by_cases delimiter : c ∈ delimiters
  · rw [ofSymbol_delimiter operator delimiter]
    exact ⟨.delimiter delimiter, fun d head => id⟩
  · rw [ofSymbol_unknown operator delimiter]
    exact ⟨.unknown (Bool.eq_false_iff.mpr blank) other operator delimiter, fun d head => id⟩

/-- What is read where no gap goes on is the longest fitting lexeme. -/
theorem read_grammar {c : Char} {cs : List Char} (start : filler? (c :: cs) = none) :
    (read c cs).1.Fits ∧ (read c cs).1.EndsBefore (read c cs).2 := by
  by_cases digit : c.isDigit = true
  · rw [read_numeral digit]
    exact numeral_fits digit cs
  by_cases word : isWordStart c = true
  · rw [read_word word]
    exact word_fits word cs
  have other : isWordChar c = false := by simp [isWordChar, digit, word]
  rw [read_symbol other]
  exact symbol_fits other start

/-! ### The characters of a lexeme -/

theorem Fits.ne_nil {l : Lexeme} (fits : l.Fits) : l.text ≠ [] := by
  cases fits with
  | integer digit digits => exact digit
  | decimal digit digits places => simp
  | keyword member =>
    obtain ⟨c, cs, spelled, -⟩ := keyword_chars member
    simp [spelled]
  | _ => exact List.cons_ne_nil _ _

theorem not_isBlank_of_word {c : Char} {cs : List Char} (start : isWordStart c = true)
    (chars : ∀ d ∈ cs, isWordChar d = true) : ∀ d ∈ c :: cs, Text.isBlank d = false := by
  intro d member
  apply not_isBlank_of_isWordChar
  rcases List.mem_cons.mp member with rfl | later
  · exact isWordChar_iff.mpr (Or.inl start)
  · exact chars d later

theorem Fits.not_isBlank {l : Lexeme} (fits : l.Fits) : ∀ c ∈ l.text, Text.isBlank c = false := by
  have ofDigit : ∀ {c : Char}, c.isDigit = true → Text.isBlank c = false :=
    fun digit => not_isBlank_of_isWordChar (isWordChar_iff.mpr (Or.inr digit))
  intro c member
  cases fits with
  | integer digit digits => exact ofDigit (digits c member)
  | decimal digit digits places =>
    rcases List.mem_append.mp member with whole | behind
    · exact ofDigit (digits c whole)
    · rcases List.mem_cons.mp behind with rfl | fraction
      · rfl
      · exact ofDigit (places c fraction)
  | keyword word =>
    obtain ⟨d, ds, spelled, start, chars⟩ := keyword_chars word
    have member : c ∈ d :: ds := spelled ▸ member
    exact not_isBlank_of_word start chars c member
  | identifier start chars other => exact not_isBlank_of_word start chars c member
  | operator symbol =>
    obtain rfl := List.mem_singleton.mp member
    exact (symbol_plain (List.mem_append_left delimiters symbol)).1
  | delimiter symbol =>
    obtain rfl := List.mem_singleton.mp member
    exact (symbol_plain (List.mem_append_right operators symbol)).1
  | unknown blank word operator delimiter =>
    obtain rfl := List.mem_singleton.mp member
    exact blank

/-- Only words and numerals have more than one character. -/
theorem Fits.single_or_chars {l : Lexeme} (fits : l.Fits) :
    (∃ c, l.text = [c]) ∨ ∀ c ∈ l.text, isWordChar c = true ∨ c = '.' := by
  have ofDigit : ∀ {c : Char}, c.isDigit = true → isWordChar c = true :=
    fun digit => isWordChar_iff.mpr (Or.inr digit)
  have ofWord : ∀ {c : Char} {cs : List Char}, isWordStart c = true →
      (∀ d ∈ cs, isWordChar d = true) → ∀ d ∈ c :: cs, isWordChar d = true ∨ d = '.' :=
    fun start chars => List.forall_mem_cons.mpr
      ⟨Or.inl (isWordChar_iff.mpr (Or.inl start)), fun d member => Or.inl (chars d member)⟩
  cases fits with
  | integer digit digits => exact Or.inr fun c member => Or.inl (ofDigit (digits c member))
  | decimal digit digits places =>
    refine Or.inr (List.forall_mem_append.mpr ⟨fun c member => Or.inl (ofDigit (digits c member)),
      List.forall_mem_cons.mpr ⟨Or.inr rfl, fun c member => Or.inl (ofDigit (places c member))⟩⟩)
  | keyword word =>
    obtain ⟨d, ds, spelled, start, chars⟩ := keyword_chars word
    exact Or.inr fun c member => ofWord start chars c (spelled ▸ member)
  | identifier start chars other => exact Or.inr (ofWord start chars)
  | operator symbol => exact Or.inl ⟨_, rfl⟩
  | delimiter symbol => exact Or.inl ⟨_, rfl⟩
  | unknown blank word operator delimiter => exact Or.inl ⟨_, rfl⟩

theorem Fits.head {l : Lexeme} (fits : l.Fits) :
    ∃ c cs, l.text = c :: cs ∧ Text.isBlank c = false := by
  obtain ⟨c, cs, text⟩ := List.exists_cons_of_ne_nil fits.ne_nil
  exact ⟨c, cs, text, fits.not_isBlank c (by simp [text])⟩

theorem Fits.eq_ofSymbol {l : Lexeme} {c : Char} {cs : List Char} (fits : l.Fits)
    (text : l.text = c :: cs) (symbol : isWordChar c = false) : l = ofSymbol c := by
  have alone : l.EndsBefore [] := fun d head => nomatch head
  have whole : read c cs = (l, []) := read_append fits alone (by rwa [List.append_nil])
  rw [read_symbol symbol] at whole
  exact (Prod.mk.inj whole).1.symm

theorem filler?_append_eq_none {l : Lexeme} {rest : List Char} (fits : l.Fits)
    (ends : l.EndsBefore rest) : filler? (l.text ++ rest) = none := by
  obtain ⟨c, cs, text, blank⟩ := fits.head
  rw [text, List.cons_append, filler?_eq_none_iff, opensComment_cons]
  refine ⟨by simp [blank], ?_⟩
  rintro ⟨rfl, mark⟩
  obtain rfl : l = ⟨.operator, ['/']⟩ := fits.eq_ofSymbol text (by decide)
  obtain rfl : [] = cs := (List.cons.inj text).2
  rw [List.nil_append] at mark
  rcases mark with slash | star
  · exact ends '/' slash ⟨rfl, Or.inl rfl⟩
  · exact ends '*' star ⟨rfl, Or.inr rfl⟩

end ExprLexer.Lexeme
