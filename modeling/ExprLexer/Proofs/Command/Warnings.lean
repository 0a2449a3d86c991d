import ExprLexer.Proofs.Command.Scan
import ExprLexer.Proofs.Diagnostic
import ExprLexer.Proofs.Listing.Lines

/-!
# Warnings of a scan

No printable character ends a line, so each warning of a scan is a line of its own, from which its
diagnostic can be read (`warning_lines`).
-/

namespace ExprLexer

theorem Text.not_isPrintable_of_mem_lineEnds : ∀ c ∈ lineEnds, isPrintable c.toNat = false :=
  forall_mem_lineEnds (by decide +kernel)

theorem Text.not_mem_of_isPrintable {cs : List Char}
    (printable : ∀ c ∈ cs, isPrintable c.toNat = true) : ∀ c ∈ lineEnds, c ∉ cs := by
  intro c ends member
  have printed := printable c member
  rw [not_isPrintable_of_mem_lineEnds c ends] at printed
  cases printed

namespace Diagnostic

theorem warning_injective : Function.Injective warning := by
  intro d e same
  have read := ofWarning?_warning d
  rw [same, ofWarning?_warning] at read
  exact (Option.some.inj read).symm

theorem not_mem_warnings (ds : List Diagnostic) :
    ∀ c ∈ Text.lineEnds, ∀ l ∈ ds.map warning, c ∉ l.toList := by
  intro c ends
  rw [List.forall_mem_map]
  exact fun d _ => Text.not_mem_of_isPrintable d.isPrintable_warning c ends

theorem warnings_injective :
    Function.Injective fun ds : List Diagnostic => Listing.unlines (ds.map warning) := by
  intro ds es same
  have feed : '\n' ∈ Text.lineEnds := by decide
  have lines := Listing.unlines_inj (not_mem_warnings ds '\n' feed) (not_mem_warnings es '\n' feed)
    same
  exact List.map_injective_iff.mpr warning_injective lines

end Diagnostic

namespace Command

/-- The line with which a strict scan fails. -/
def failureLine (diagnostics : Nat) : String := "Error: " ++ strictMessage diagnostics

theorem not_mem_failureLine (n : Nat) : ∀ c ∈ Text.lineEnds, c ∉ (failureLine n).toList := by
  have words : ∀ c ∈ Text.lineEnds, c ∉ "Error: ".toList ∧ c ∉ "scan reported ".toList ∧
      c ∉ " diagnostic(s).".toList ∧ c.isDigit = false :=
    Text.forall_mem_lineEnds (by decide)
  intro c ends
  obtain ⟨error, front, back, other⟩ := words c ends
  have number : c ∉ (toString n).toList := by
    intro member
    have digits : (toString n).toList = Nat.toDigits 10 n := Nat.toList_repr
    rw [digits] at member
    exact Bool.false_ne_true (other.symm.trans (Text.isDigit_toDigits n c member))
  unfold failureLine strictMessage
  simp only [String.toList_append, List.mem_append, not_or]
  exact ⟨error, ⟨front, number⟩, back⟩

theorem reportLines_eq {s : Settings} (shown : s.showDiagnostics = true)
    (diagnostics : List Diagnostic) :
    reportLines s diagnostics = Listing.unlines (diagnostics.map Diagnostic.warning ++
      if fails s diagnostics then [failureLine diagnostics.length] else []) := by
  rw [reportLines, if_pos shown, Listing.unlines_append]
  congr 1
  cases fails s diagnostics with
  | false => rfl
  | true => rw [if_pos rfl, if_pos rfl, Listing.unlines_singleton, failureLine, strictMessage]

theorem lines_reportLines {s : Settings} (shown : s.showDiagnostics = true)
    (diagnostics : List Diagnostic) :
    Text.lines (reportLines s diagnostics).toList =
      diagnostics.map (fun d => d.warning.toList) ++
        if s.strict = true ∧ diagnostics ≠ [] then [(failureLine diagnostics.length).toList]
        else [] := by
  have strict : fails s diagnostics = true ↔ s.strict = true ∧ diagnostics ≠ [] := by
    rw [fails, Bool.and_eq_true_iff, decide_eq_true_iff]
  have inside : ∀ c ∈ Text.lineEnds, ∀ l ∈ diagnostics.map Diagnostic.warning ++
      (if fails s diagnostics then [failureLine diagnostics.length] else []), c ∉ l.toList := by
    intro c ends
    refine List.forall_mem_append.mpr ⟨Diagnostic.not_mem_warnings diagnostics c ends, ?_⟩
    split
    · exact List.forall_mem_singleton.mpr (not_mem_failureLine _ c ends)
    · exact List.forall_mem_nil _
  rw [reportLines_eq shown, Listing.lines_unlines inside, List.map_append, List.map_map]
  congr 1
  simp only [← strict]
  split <;> rfl

/-- Whatever the source, the messages of its diagnostics are printable and hold no end of a line. So
a scan of a string that shows its diagnostics and tells of nothing else prints one line for each of
them, and a last one if it is strict and has any, unless the string is so long that its places
cannot be listed. A warning tells the line, the column and the cause of its diagnostic, the
character or the numeral included, so sources with the same warnings have the same diagnostics. -/
theorem warning_lines :
    (∀ source : String, ∀ d ∈ (scan source).2,
      (∀ c ∈ d.message.toList, Text.isPrintable c.toNat = true) ∧
      ∀ c ∈ Text.lineEnds, c ∉ d.message.toList) ∧
    (∀ (w : Surroundings) (arguments : List String) (o : ScanOptions) (log : List LogRecord)
      (s : Settings) (source : Logged String),
      Request.ofArguments arguments = .scan false o → Reads w o log s source →
      source.value.length < 10 ^ Text.maxWritten → s.showDiagnostics = true →
      Text.lines (run w.host arguments).errors.toList =
        (scan source.value).2.map (fun d => d.warning.toList) ++
          if s.strict = true ∧ (scan source.value).2 ≠ [] then
            [(failureLine (scan source.value).2.length).toList]
          else []) ∧
    (∀ d : Diagnostic, Diagnostic.ofWarning? d.warning.toList = some d) ∧
    ∀ source other : String,
      Listing.unlines ((scan source).2.map Diagnostic.warning) =
        Listing.unlines ((scan other).2.map Diagnostic.warning) →
      (scan source).2 = (scan other).2 := by
  refine ⟨fun source d _ => ⟨d.isPrintable_message, ?_⟩, ?_, Diagnostic.ofWarning?_warning,
    fun source other same => Diagnostic.warnings_injective same⟩
  · exact Text.not_mem_of_isPrintable d.isPrintable_message
  · intro w arguments o log s source parsed reads short shown
    obtain ⟨listing, -, outcome⟩ := exists_reportSource false log s short source.record
    have request : run w.host arguments = runScan w.host false o :=
      congrArg (Request.run w.host) parsed
    have quiet : scanLog false log source.record (scan source.value) = "" := rfl
    rw [request, runScan_of_read reads.resolved reads.read, outcome, quiet, listed,
      String.empty_append, lines_reportLines shown]

theorem warning_lines_strict :
    Request.ofArguments ["scan", "--strict", "a.src"] =
        .scan false { overrides := { strict := some true }, file := "a.src" } ∧
      Text.lines (run oneFile.host ["scan", "--strict", "a.src"]).errors.toList =
        ["Warning: 1:1: Unknown character: '?'".toList,
          "Error: scan reported 1 diagnostic(s).".toList] ∧
      Diagnostic.ofWarning? "Warning: 1:1: Unknown character: '?'".toList =
        some ⟨.unknownCharacter '?', ⟨1, 1⟩⟩ ∧
      Listing.unlines ((scan "?").2.map Diagnostic.warning) ≠
        Listing.unlines ((scan "'").2.map Diagnostic.warning) := by
  have parsed : Request.ofArguments ["scan", "--strict", "a.src"] =
      .scan false { overrides := { strict := some true }, file := "a.src" } := by decide
  have apostrophe : scan "'" = ([⟨.unknown, "'", 1, 1⟩], [⟨.unknownCharacter '\'', ⟨1, 1⟩⟩]) :=
    Tiling.scan_unknown (.unknown rfl rfl (by decide) (by decide))
  obtain ⟨-, lines, told, determined⟩ := warning_lines
  have printed := lines oneFile _ _ _ _ _ parsed reads_oneFile short_questionMark rfl
  dsimp only at printed
  rw [scan_questionMark] at printed
  refine ⟨parsed, printed, told ⟨.unknownCharacter '?', ⟨1, 1⟩⟩, fun same => ?_⟩
  have equal := determined _ _ same
  rw [scan_questionMark, apostrophe] at equal
  exact absurd equal (by decide)

end Command

end ExprLexer
