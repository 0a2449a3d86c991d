import ExprLexer.Proofs.Text.Digits
import ExprLexer.Yaml.Tokenizer

/-!
# Faults of reading

Reading goes through a text place by place. Whatever keeps it from going on makes the document
malformed, but for three things: an escape by number beyond the last code point, the number of a
version with too many digits, and nodes that anchors entangle (`ReadFault`). Here for what stands
within one token; `Proofs.Yaml.Fault` has the tokens.
-/

namespace ExprLexer.Yaml

variable {text : List Char}

/-- The text holds an escape of a number beyond the last code point. -/
def EscapesBeyond (text : List Char) (n : Nat) : Prop :=
  ∃ before digits after, text = before ++ '\\' :: 'U' :: digits ++ after ∧
    digits.length = 8 ∧ Text.number? 16 digits = some n ∧ 0x110000 ≤ n

/-- The text holds a run of `n` digits that is longer than numbers are read. -/
def LongNumber (text : List Char) (n : Nat) : Prop :=
  ∃ before digits after, text = before ++ digits ++ after ∧
    (∀ c ∈ digits, c.isDigit = true) ∧ digits.length = n ∧ maxDigits < n

/-- The faults that reading the text can meet. -/
inductive ReadFault (text : List Char) : Fault → Prop
  | malformed : ReadFault text .malformed
  | entangled (anchors : '&' ∈ text) : ReadFault text .entangled
  | escape {n : Nat} (beyond : EscapesBeyond text n) :
      ReadFault text (.noCharacter (0x80000000 ≤ n))
  | version {n : Nat} (long : LongNumber text n) : ReadFault text (.tooManyDigits n)

/-- A result of reading: what has the property, or a fault of the text. -/
def Yields (text : List Char) (p : α → Prop) : Except Fault α → Prop
  | .ok a => p a
  | .error f => ReadFault text f

namespace Yields

variable {p : α → Prop} {q : β → Prop} {r : Except Fault α}

theorem ok {a : α} (holds : p a) : Yields text p (.ok a) := holds

theorem malformed : Yields text p (.error .malformed) := ReadFault.malformed

theorem of_error {f : Fault} (reads : Yields text p r) (failed : r = .error f) :
    ReadFault text f := by
  rwa [failed] at reads

theorem of_ok {a : α} (reads : Yields text p r) (done : r = .ok a) : p a := by
  rwa [done] at reads

theorem map {f : α → β} (reads : Yields text p r) (each : ∀ a, p a → q (f a)) :
    Yields text q (r.map f) := by
  cases r with
  | error f => exact reads
  | ok a => exact each a reads

theorem bind {f : α → Except Fault β} (reads : Yields text p r)
    (each : ∀ a, p a → Yields text q (f a)) : Yields text q (r >>= f) := by
  cases r with
  | error f => exact reads
  | ok a => exact each a reads

end Yields

/-! ### Places -/

namespace Input

/-- What is left to read is the end of the text. -/
def Within (text : List Char) (i : Input) : Prop := i.rest <:+ text

variable {i : Input}

theorem within_tail {c : Char} {rest : List Char} (within : c :: rest <:+ text) : rest <:+ text :=
  (List.suffix_cons c rest).trans within

theorem Within.step (within : i.Within text) : i.step.Within text := by
  unfold Input.step
  split
  · exact within
  · rename_i c rest here
    have within : c :: rest <:+ text := here ▸ within
    exact within_tail within

theorem Within.skip (within : i.Within text) (n : Nat) : (i.skip n).Within text := by
  induction n generalizing i with
  | zero => exact within
  | succ n ih => exact ih within.step

theorem within_spanFrom (p : Char → Bool) {cs : List Char} (within : cs <:+ text) (m : Mark) :
    (spanFrom p cs m).2.Within text := by
  induction cs generalizing m with
  | nil => exact within
  | cons c cs ih =>
    rw [spanFrom]
    split
    · exact ih (within_tail within) _
    · exact within

theorem spanFrom_parts (p : Char → Bool) (cs : List Char) (m : Mark) :
    cs = (spanFrom p cs m).1 ++ (spanFrom p cs m).2.rest ∧
      ∀ c ∈ (spanFrom p cs m).1, p c = true := by
  induction cs generalizing m with
  | nil => exact ⟨rfl, List.forall_mem_nil _⟩
  | cons c cs ih =>
    rw [spanFrom]
    split
    · next here =>
      obtain ⟨parts, all⟩ := ih (m.next c cs)
      exact ⟨congrArg (c :: ·) parts, List.forall_mem_cons.mpr ⟨here, all⟩⟩
    · exact ⟨rfl, List.forall_mem_nil _⟩

theorem Within.span (within : i.Within text) (p : Char → Bool) : (i.span p).2.Within text :=
  within_spanFrom p within i.mark

theorem Within.skipWhile (within : i.Within text) (p : Char → Bool) :
    (i.skipWhile p).Within text := within.span p

theorem Within.lineBreak? (within : i.Within text) {b : Char} {j : Input}
    (found : i.lineBreak? = some (b, j)) : j.Within text := by
  unfold Input.lineBreak? at found
  split at found
  · cases found
    exact within.step.step
  · cases found
    exact within.step
  · cases found
    exact within.step
  · split at found
    · cases found
      exact within.step
    · cases found
  · cases found

/-- The input behind a line break, if there is one. -/
theorem Within.behindBreak (within : i.Within text) : (i.lineBreak?.elim i (·.2)).Within text := by
  cases found : i.lineBreak? with
  | none => exact within
  | some b => exact within.lineBreak? found

theorem Within.skipComment (within : i.Within text) : i.skipComment.Within text := by
  unfold Input.skipComment
  dsimp only
  split
  · exact (within.skipWhile _).skipWhile _
  · exact within.skipWhile _

end Input

/-! ### Plain scalars -/

theorem within_plainChunk (flow : Bool) {cs : List Char} (within : cs <:+ text) (m : Mark) :
    (plainChunk flow cs m).2.Within text := by
  induction cs generalizing m with
  | nil => exact within
  | cons c cs ih =>
    rw [plainChunk]
    split
    · exact within
    · exact ih (Input.within_tail within) _

variable {i : Input}

theorem within_plainBreaks (fuel : Nat) (within : i.Within text) :
    (plainBreaks fuel i).2.Within text := by
  induction fuel generalizing i with
  | zero => exact within
  | succ fuel ih =>
    rw [plainBreaks]
    dsimp only
    split
    · exact within.skipWhile _
    · rename_i found
      have after := (within.skipWhile _).lineBreak? found
      split
      · exact after
      · exact ih after

theorem within_plainSpaces (fuel : Nat) (within : i.Within text) :
    (plainSpaces fuel i).input.Within text := by
  unfold plainSpaces
  dsimp only
  split
  · exact within.span _
  · rename_i found
    have after := (within.span _).lineBreak? found
    have breaks := within_plainBreaks fuel after
    split
    · exact after
    · split
      · rename_i folded
        rwa [folded] at breaks
      · rename_i folded
        rwa [folded] at breaks

theorem within_plainFrom (flow : Bool) (indent fuel : Nat) (crossed : Bool)
    (within : i.Within text) : (plainFrom flow indent fuel crossed i).2.2.Within text := by
  induction fuel generalizing crossed i with
  | zero => exact within
  | succ fuel ih =>
    rw [plainFrom]
    dsimp only
    split
    · exact within
    · split
      · exact within
      · have spaces := within_plainSpaces fuel (within_plainChunk flow within i.mark)
        split
        · exact spaces
        · exact ih _ spaces

/-! ### Block scalars -/

/-- A result of reading that comes with the input behind it. -/
abbrev Leads (text : List Char) (r : Except Fault (α × Input)) : Prop :=
  Yields text (fun a => a.2.Within text) r

theorem blockHeader_yields (within : i.Within text) :
    Yields text (fun r => r.2.2.Within text) (blockHeader i) := by
  unfold blockHeader
  extract_lets chomping? digit?
  split
  rename_i chomping indent j found
  have behind : j.Within text := by
    split at found
    · split at found <;> cases found
      · exact within.step.step
      · exact within.step
    · split at found <;> cases found
      · exact within.step.step
      · exact within.step
    · cases found
      exact within
  split
  · exact .malformed
  · dsimp only
    split
    · exact .malformed
    · exact behind.skipComment.behindBreak

theorem within_detectIndent (fuel : Nat) (within : i.Within text) (widest : Nat) :
    (detectIndent fuel i widest).2.2.Within text := by
  induction fuel generalizing i widest with
  | zero => exact within
  | succ fuel ih =>
    rw [detectIndent]
    split
    · rename_i found
      exact ih (within.lineBreak? found) _
    · split
      · exact ih within.step _
      · exact within

theorem within_skipIndent (indent fuel : Nat) (within : i.Within text) :
    (skipIndent indent fuel i).Within text := by
  induction fuel generalizing i with
  | zero => exact within
  | succ fuel ih =>
    rw [skipIndent]
    split
    · exact ih within.step
    · exact within

theorem within_blockBreaks (indent fuel : Nat) (within : i.Within text) :
    (blockBreaks indent fuel i).2.Within text := by
  induction fuel generalizing i with
  | zero => exact within
  | succ fuel ih =>
    have lines := within_skipIndent indent indent within
    rw [blockBreaks]
    dsimp only
    split
    · rename_i found
      exact ih (lines.lineBreak? found)
    · exact lines

theorem within_blockLines (folded : Bool) (indent fuel : Nat) (breaks : List Char)
    (within : i.Within text) : (blockLines folded indent fuel breaks i).2.2.2.Within text := by
  induction fuel generalizing breaks i with
  | zero => exact within
  | succ fuel ih =>
    rw [blockLines]
    split
    rename_i line stop spanned
    have lineEnd := within.span (!isBreak ·)
    rw [spanned] at lineEnd
    split
    rename_i lineBreak after broken
    have behind : after.Within text := by
      split at broken <;> cases broken
      · rename_i found
        exact lineEnd.lineBreak? found
      · exact lineEnd
    split
    rename_i more next passed
    have empty := within_blockBreaks indent fuel behind
    rw [passed] at empty
    dsimp only
    split
    · exact ih _ empty
    · exact empty

theorem blockScalar_yields (folded : Bool) (least fuel : Nat) (within : i.Within text) :
    Leads text (blockScalar folded least fuel i) := by
  unfold blockScalar
  have header := blockHeader_yields within
  split
  · exact header.of_error ‹_›
  · rename_i chomping given j read
    have header := header.of_ok read
    extract_lets least
    split
    rename_i indent breaks k start
    have lines : k.Within text := by
      split at start
      · cases start
        exact within_detectIndent fuel header 0
      · cases start
        exact within_blockBreaks _ fuel header
    split
    rename_i last scanned
    split at scanned
    · have behind := within_blockLines folded indent fuel breaks lines
      rwa [scanned] at behind
    · cases scanned
      exact lines

/-! ### Quoted scalars -/

theorem quotedBreaks_yields (fuel : Nat) (within : i.Within text) :
    Leads text (quotedBreaks fuel i) := by
  induction fuel generalizing i with
  | zero => exact .malformed
  | succ fuel ih =>
    rw [quotedBreaks]
    split
    · exact .malformed
    · dsimp only
      split
      · exact within.skipWhile _
      · rename_i found
        have more := ih ((within.skipWhile _).lineBreak? found)
        split
        · rename_i read
          have last := more.of_ok read
          exact last
        · exact more.of_error ‹_›

theorem quotedSpaces_yields (fuel : Nat) (within : i.Within text) :
    Leads text (quotedSpaces fuel i) := by
  unfold quotedSpaces
  dsimp only
  split
  · rename_i found
    have more := quotedBreaks_yields fuel ((within.span _).lineBreak? found)
    split
    · rename_i read
      have last := more.of_ok read
      exact last
    · exact more.of_error ‹_›
  · split
    · exact .malformed
    · exact within.span _

/-- Only the longest escapes reach beyond the last code point. -/
theorem widest {c : Char} {width : Nat} (wide : escapeWidth? c = some width)
    (beyond : 0x110000 < 16 ^ width) : c = 'U' ∧ width = 8 := by
  unfold escapeWidth? at wide
  split at wide
  · cases wide
    exact absurd beyond (by decide)
  · cases wide
    exact absurd beyond (by decide)
  · cases wide
    exact ⟨rfl, rfl⟩
  · cases wide

/-- The input stands behind a backslash. -/
theorem escape_yields (fuel : Nat) (within : '\\' :: i.rest <:+ text) :
    Leads text (escape fuel i) := by
  have here : i.Within text := Input.within_tail within
  unfold escape
  split
  · exact .malformed
  · rename_i c rest front
    split
    · exact here.step
    · rename_i width long wide
      dsimp only
      split
      · rename_i length
        split
        · rename_i n number
          split
          · exact here.step.skip width
          · rename_i large
            have bound := Text.number?_lt number
            rw [length] at bound
            obtain ⟨rfl, rfl⟩ := widest wide (by omega)
            obtain ⟨before, whole⟩ := within
            refine ReadFault.escape ⟨before, rest.take 8, rest.drop 8, ?_, length, number, by omega⟩
            rw [List.append_assoc, List.cons_append, List.cons_append, List.take_append_drop,
              ← front, whole]
        · exact .malformed
      · exact .malformed
    · split
      · rename_i found
        have more := quotedBreaks_yields fuel (here.lineBreak? found)
        split
        · rename_i read
          have last := more.of_ok read
          exact last
        · exact more.of_error ‹_›
      · exact .malformed

theorem quotedScalar_yields (double : Bool) (fuel : Nat) (within : i.Within text) :
    Leads text (quotedScalar double fuel i) := by
  induction fuel generalizing i with
  | zero => exact .malformed
  | succ fuel ih =>
    rw [quotedScalar]
    split
    · exact .malformed
    · rename_i c rest front
      extract_lets further
      have reads : Leads text further := by
        unfold further
        split
        · exact (quotedSpaces_yields fuel within).map fun _ last => last
        · split
          · rename_i slash
            have slash : c = '\\' := by simpa using (Bool.and_eq_true_iff.mp slash).2
            have behind : '\\' :: i.step.rest <:+ text := by
              rw [Input.step, front, ← slash]
              exact front ▸ within
            exact escape_yields fuel behind
          · split
            · exact within.step.step
            · exact within.step
      clear_value further
      split
      · exact within.step
      · split
        · exact within.step
        · rcases further with f | ⟨piece, after⟩
          · exact reads
          · have more := ih reads
            dsimp only
            split
            · rename_i read
              have last := more.of_ok read
              exact last
            · exact more.of_error ‹_›

/-! ### Anchors, tags and directives -/

theorem anchorName_yields (within : i.Within text) : Leads text (anchorName i) := by
  unfold anchorName
  dsimp only
  split
  · exact .malformed
  · split
    · exact within.span _
    · exact .malformed

theorem within_tagEscapes? {fuel : Nat} (within : i.Within text) {bytes : List UInt8} {j : Input}
    (found : tagEscapes? fuel i = some (bytes, j)) : j.Within text := by
  induction fuel generalizing i bytes with
  | zero => cases found
  | succ fuel ih =>
    rw [tagEscapes?] at found
    split at found
    · split at found
      · obtain ⟨⟨more, last⟩, later, same⟩ := Option.map_eq_some_iff.mp found
        cases same
        exact ih (within.skip 3) later
      · cases found
    · cases found
    · cases found
      exact within

theorem tagText_yields (fuel : Nat) (within : i.Within text) : Leads text (tagText fuel i) := by
  induction fuel generalizing i with
  | zero => exact .malformed
  | succ fuel ih =>
    rw [tagText]
    dsimp only
    split
    · split
      · exact .malformed
      · rename_i escaped
        split
        · exact .malformed
        · have more := ih (within_tagEscapes? (within.span _) escaped)
          split
          · rename_i read
            have last := more.of_ok read
            exact last
          · exact more.of_error ‹_›
    · exact within.span _

theorem tagSuffix_yields (fuel : Nat) (within : i.Within text) :
    Leads text (tagSuffix fuel i) := by
  unfold tagSuffix
  split
  · exact .malformed
  · exact tagText_yields fuel within

theorem tagHandle_yields (within : i.Within text) : Leads text (tagHandle i) := by
  unfold tagHandle
  split
  · split
    · exact within.step
    · dsimp only
      split
      · exact (within.step.span _).step
      · exact .malformed
  · exact .malformed

theorem tagName_yields (fuel : Nat) (within : i.Within text) : Leads text (tagName fuel i) := by
  unfold tagName
  extract_lets read
  have reads : Leads text read := by
    unfold read
    split
    · have behind := tagSuffix_yields fuel within.step.step
      split
      · rename_i found
        split
        · exact Input.Within.step (behind.of_ok found)
        · exact .malformed
      · exact behind.of_error ‹_›
    · split
      · exact within.step
      · extract_lets handle
        have reads : Leads text handle := by
          unfold handle
          split
          · exact tagHandle_yields within
          · exact within.step
        clear_value handle
        rcases handle with f | ⟨name, after⟩
        · exact reads
        · have behind := tagSuffix_yields fuel reads
          dsimp only
          split
          · rename_i read
            exact behind.of_ok read
          · exact behind.of_error ‹_›
  clear_value read
  rcases read with f | ⟨name, after⟩
  · exact reads
  · dsimp only
    split
    · exact reads
    · exact .malformed

theorem versionNumber_yields (within : i.Within text) : Leads text (versionNumber i) := by
  obtain ⟨parts, digits⟩ := Input.spanFrom_parts Char.isDigit i.rest i.mark
  unfold versionNumber
  dsimp only
  split
  · split
    · next long =>
      obtain ⟨before, whole⟩ := within
      refine ReadFault.version ⟨before, _, (i.span Char.isDigit).2.rest, ?_, digits, rfl, long⟩
      rw [List.append_assoc]
      exact (whole.symm.trans (congrArg (before ++ ·) parts) : text = _)
    · exact within.span _
  · exact .malformed

theorem directiveValue_yields (name : List Char) (fuel : Nat) (within : i.Within text) :
    Leads text (directiveValue name fuel i) := by
  unfold directiveValue
  split
  · refine (versionNumber_yields (within.skipWhile _)).bind fun ⟨major, j⟩ behind => ?_
    dsimp only
    split
    · refine (versionNumber_yields (Input.Within.step behind)).bind fun ⟨minor, k⟩ behind => ?_
      dsimp only
      split
      · exact behind
      · exact .malformed
    · exact .malformed
  · split
    · refine (tagHandle_yields (within.skipWhile _)).bind fun ⟨handle, j⟩ behind => ?_
      dsimp only
      split
      · refine (tagSuffix_yields fuel (Input.Within.skipWhile behind _)).bind
          fun ⟨expansion, k⟩ behind => ?_
        dsimp only
        split
        · exact behind
        · exact .malformed
      · exact .malformed
    · exact within.skipWhile _

theorem directive_yields (fuel : Nat) (within : i.Within text) : Leads text (directive fuel i) := by
  unfold directive
  split
  rename_i name j spanned
  have behind := within.span isNameChar
  rw [spanned] at behind
  split
  · exact .malformed
  · refine (directiveValue_yields name fuel behind).bind fun ⟨d, k⟩ behind => ?_
    dsimp only
    split
    · exact (Input.Within.skipComment behind).behindBreak
    · exact .malformed

end ExprLexer.Yaml
