import Mathlib.Data.List.Basic
import ExprLexer.Diagnostic
import ExprLexer.Proofs.Scan.Gap
import ExprLexer.Proofs.Text.Points
import ExprLexer.Proofs.Text.Quoted

/-!
# Warnings read back

A message quotes what it is about, so it is printable whatever that is (`isPrintable_message`), and
its cause can be read from it (`ofMessage?_message`). With the position in front of it, a warning
tells all of its diagnostic (`ofWarning?_warning`).
-/

namespace ExprLexer

namespace Text

/-- The number at the front of a text in decimal notation, and what follows it. -/
def decimal? (cs : List Char) : Option (Nat × List Char) :=
  (number? 10 (cs.takeWhile Char.isDigit)).map fun n => (n, cs.dropWhile Char.isDigit)

theorem decimal?_toDigits {rest : List Char} (stop : ∀ c ∈ rest.head?, c.isDigit = false)
    (n : Nat) : decimal? (Nat.toDigits 10 n ++ rest) = some (n, rest) := by
  have digits := isDigit_toDigits n
  rw [decimal?, takeWhile_append digits stop, dropWhile_append digits stop, number?_toDigits]
  rfl

end Text

namespace Diagnostic

/-! ### The reader -/

namespace Cause

def unknownCharacter? (message : List Char) : Option Cause := do
  let cs ← message.dropPrefix? "Unknown character: ".toList
  let ([n], []) ← Text.unquote? cs | none
  return unknownCharacter (Char.ofNat n)

def extraDecimalPoint? (message : List Char) : Option Cause := do
  let cs ← message.dropPrefix? "Numeric literal ".toList
  let (numeral, rest) ← Text.unquote? cs
  if rest = " ends at a second decimal point".toList then
    (Text.Points.toChars? numeral).map extraDecimalPoint
  else none

def unterminatedComment? (message : List Char) : Option Cause :=
  if message = unterminatedComment.message.toList then some unterminatedComment else none

/-- The cause that a message tells of. -/
def ofMessage? (message : List Char) : Option Cause :=
  (unknownCharacter? message).or
    ((extraDecimalPoint? message).or (unterminatedComment? message))

end Cause

/-- The diagnostic that a warning tells of. -/
def ofWarning? (warning : List Char) : Option Diagnostic := do
  let cs ← warning.dropPrefix? "Warning: ".toList
  let (line, ':' :: cs) ← Text.decimal? cs | none
  let (column, ':' :: ' ' :: message) ← Text.decimal? cs | none
  let cause ← Cause.ofMessage? message
  return ⟨cause, line, column⟩

/-! ### Messages -/

theorem toList_message_unknown (c : Char) :
    (Cause.unknownCharacter c).message.toList =
      "Unknown character: ".toList ++ Text.quoted [c.toNat] := by
  dsimp only [Cause.message]
  rw [String.toList_append, Text.toList_quotePoints]

theorem toList_message_extra (numeral : List Char) :
    (Cause.extraDecimalPoint numeral).message.toList =
      "Numeric literal ".toList ++ (Text.quoted (Text.Points.ofChars numeral) ++
        " ends at a second decimal point".toList) := by
  dsimp only [Cause.message]
  rw [String.toList_append, String.toList_append, Text.toList_quotePoints, List.append_assoc]

theorem ofMessage?_message (c : Cause) : Cause.ofMessage? c.message.toList = some c := by
  cases c with
  | unknownCharacter c =>
    have small : ∀ n ∈ [c.toNat], n < 0x110000 := List.forall_mem_singleton.mpr (Text.toNat_lt c)
    have quoted := Text.unquote?_quoted small []
    rw [List.append_nil] at quoted
    have read : Cause.unknownCharacter? (Cause.unknownCharacter c).message.toList =
        some (.unknownCharacter c) := by
      rw [toList_message_unknown, Cause.unknownCharacter?,
        List.dropPrefix?_append_of_beq _ (beq_self_eq_true _), Option.bind_eq_bind,
        Option.bind_some, quoted, Option.bind_eq_bind, Option.bind_some]
      exact congrArg (some ∘ Cause.unknownCharacter) (Char.ofNat_toNat c)
    rw [Cause.ofMessage?, read, Option.some_or]
  | extraDecimalPoint numeral =>
    have other :
        Cause.unknownCharacter? (Cause.extraDecimalPoint numeral).message.toList = none := by
      rw [toList_message_extra]
      rfl
    have read : Cause.extraDecimalPoint? (Cause.extraDecimalPoint numeral).message.toList =
        some (.extraDecimalPoint numeral) := by
      rw [toList_message_extra, Cause.extraDecimalPoint?,
        List.dropPrefix?_append_of_beq _ (beq_self_eq_true _), Option.bind_eq_bind,
        Option.bind_some, Text.unquote?_quoted Text.Points.lt_of_mem_ofChars, Option.bind_eq_bind,
        Option.bind_some]
      dsimp only
      rw [if_pos rfl, Text.Points.toChars?_ofChars, Option.map_some]
    rw [Cause.ofMessage?, other, read, Option.none_or, Option.some_or]
  | unterminatedComment => rfl

theorem isPrintable_message (d : Diagnostic) :
    ∀ c ∈ d.message.toList, Text.isPrintable c.toNat = true := by
  obtain ⟨cause, position⟩ := d
  cases cause with
  | unknownCharacter c =>
    have small : ∀ n ∈ [c.toNat], n < 0x110000 := List.forall_mem_singleton.mpr (Text.toNat_lt c)
    rw [message, toList_message_unknown]
    exact List.forall_mem_append.mpr
      ⟨List.all_eq_true.mp (by decide), Text.isPrintable_quoted small⟩
  | extraDecimalPoint numeral =>
    rw [message, toList_message_extra]
    exact List.forall_mem_append.mpr ⟨List.all_eq_true.mp (by decide),
      List.forall_mem_append.mpr ⟨Text.isPrintable_quoted Text.Points.lt_of_mem_ofChars,
        List.all_eq_true.mp (by decide)⟩⟩
  | unterminatedComment =>
    show ∀ c ∈ Cause.unterminatedComment.message.toList, _
    exact List.all_eq_true.mp (by decide)

/-! ### Warnings -/

theorem toList_warning (d : Diagnostic) :
    d.warning.toList = "Warning: ".toList ++ (Nat.toDigits 10 d.position.line ++
      ':' :: (Nat.toDigits 10 d.position.column ++ ':' :: ' ' :: d.message.toList)) := by
  have line : (toString d.position.line).toList = Nat.toDigits 10 d.position.line :=
    Nat.toList_repr
  have column : (toString d.position.column).toList = Nat.toDigits 10 d.position.column :=
    Nat.toList_repr
  have gap : ": ".toList = [':', ' '] := by decide
  have colon : ":".toList = [':'] := by decide
  unfold warning
  simp only [String.toList_append]
  rw [line, column, gap, colon]
  simp only [List.append_assoc, List.cons_append, List.nil_append]

theorem ofWarning?_warning (d : Diagnostic) : ofWarning? d.warning.toList = some d := by
  have stop : ∀ cs : List Char, ∀ c ∈ (':' :: cs).head?, c.isDigit = false := by
    intro cs c head
    obtain rfl := Option.some.inj head
    rfl
  rw [toList_warning, ofWarning?, List.dropPrefix?_append_of_beq _ (beq_self_eq_true _)]
  simp [Text.decimal?_toDigits (stop _), message, ofMessage?_message]

theorem isPrintable_warning (d : Diagnostic) :
    ∀ c ∈ d.warning.toList, Text.isPrintable c.toNat = true := by
  have digits : ∀ n, ∀ c ∈ Nat.toDigits 10 n, Text.isPrintable c.toNat = true := by
    intro n c member
    have range : 0x30 ≤ c.toNat ∧ c.toNat ≤ 0x39 :=
      Char.isDigit_iff_toNat.mp (Text.isDigit_toDigits n c member)
    rw [Text.isPrintable, if_pos (by omega)]
    exact decide_eq_true (by omega)
  rw [toList_warning]
  simp only [List.forall_mem_append, List.forall_mem_cons]
  exact ⟨List.all_eq_true.mp (by decide), digits _, rfl, digits _, rfl, rfl, d.isPrintable_message⟩

end Diagnostic

end ExprLexer
