import ExprLexer.Settings.Load

/-!
# Settings of a file

What a configuration file that loads holds, and where each field of its settings comes from
(`exists_holds`).
-/

namespace ExprLexer.Settings

/-- The value of a field: that of the first of its names among the entries, else the usual one. -/
inductive Field.Takes (entries : List (Data × Data)) (names : List String) (usual : α)
    (read : Data → Except Schema.Cause α) : α → Prop
  | given {name : String} {d : Data} {value : α}
      (found : Schema.find? entries names = some (name, d)) (reads : read d = .ok value) :
      Takes entries names usual read value
  | usual (missing : Schema.find? entries names = none) : Takes entries names usual read usual

theorem takes_of_optional {entries : List (Data × Data)} {names : List String} {usual value : α}
    {read : Data → Except Schema.Cause α}
    (taken : Schema.optional entries names usual read = .ok value) :
    Field.Takes entries names usual read value := by
  unfold Schema.optional at taken
  split at taken
  · cases taken
    exact .usual ‹_›
  · split at taken
    · cases taken
      exact .given ‹_› ‹_›
    · cases taken

/-- The settings that the entries of a record give. -/
structure Gives (entries : List (Data × Data)) (s : Settings) : Prop where
  outputFormat : Field.Takes entries outputFormatNames .text
    (Schema.oneOf Format.all Format.name) s.outputFormat
  color : Field.Takes entries colorNames false Schema.flag s.color
  strict : Field.Takes entries strictNames false Schema.flag s.strict
  showDiagnostics : Field.Takes entries showDiagnosticsNames true Schema.flag s.showDiagnostics
  encoding : Field.Takes entries encodingNames (.ofString "utf-8") Schema.points s.encoding

theorem gives_of_ofEntries {entries : List (Data × Data)} {s : Settings}
    (valid : ofEntries entries = .ok s) : Gives entries s := by
  unfold ofEntries at valid
  dsimp only at valid
  split at valid
  · rename_i format color strict shown encoding _
    cases valid
    exact ⟨takes_of_optional format, takes_of_optional color, takes_of_optional strict,
      takes_of_optional shown, takes_of_optional encoding⟩
  · cases valid

/-- Without entries every field is as usual. -/
theorem gives_nil : Gives [] {} :=
  ⟨.usual rfl, .usual rfl, .usual rfl, .usual rfl, .usual rfl⟩

/-- The file at `path` holds a record of these entries. An empty document counts as one of none. -/
inductive Holds (files : Files) (path : Path) : List (Data × Data) → Prop
  | intro {bytes : List UInt8} {cs : List Char} {d : Data} {entries : List (Data × Data)}
      (content : files.read path = .ok bytes)
      (text : Encoding.Scheme.utf8.decode 0 bytes = .ok cs)
      (document : Yaml.load (Text.withLineFeeds cs) = .ok d)
      (record : d = .null ∧ entries = [] ∨ d = .mapping entries) : Holds files path entries

theorem of_mapError {x : Except ε α} {f : ε → φ} {a : α} (valid : x.mapError f = .ok a) :
    x = .ok a := by
  cases x with
  | error e => cases valid
  | ok b => exact congrArg Except.ok (Except.ok.inj valid)

theorem ofData_ok {path : Path} {d : Data} {s : Settings} (valid : ofData path d = .ok s) :
    ∃ entries, (d = .null ∧ entries = [] ∨ d = .mapping entries) ∧ ofEntries entries = .ok s := by
  cases d with
  | null => exact ⟨[], .inl ⟨rfl, rfl⟩, of_mapError (f := ConfigError.invalid path) valid⟩
  | mapping entries => exact ⟨entries, .inr rfl, of_mapError (f := ConfigError.invalid path) valid⟩
  | _ => cases valid

theorem ofText_ok {path : Path} {cs : List Char} {s : Settings} (valid : ofText path cs = .ok s) :
    ∃ d, Yaml.load (Text.withLineFeeds cs) = .ok d ∧ ofData path d = .ok s := by
  unfold ofText at valid
  split at valid
  · cases valid
  · cases valid
  · exact ⟨_, ‹_›, of_mapError valid⟩

theorem ofBytes_ok {path : Path} {bytes : List UInt8} {s : Settings}
    (valid : ofBytes path bytes = .ok s) :
    ∃ cs, Encoding.Scheme.utf8.decode 0 bytes = .ok cs ∧ ofText path cs = .ok s := by
  unfold ofBytes at valid
  split at valid
  · cases valid
  · exact ⟨_, ‹_›, valid⟩

theorem load_ok {w : Surroundings} {path : Path} {s : Logged Settings}
    (loads : load w.host path = .ok s) :
    ∃ bytes, w.files.read path = .ok bytes ∧ ofBytes path bytes = .ok s.value := by
  change (ofRead path (w.files.read path)).map _ = _ at loads
  cases content : w.files.read path with
  | error e =>
    rw [content] at loads
    cases e <;> cases loads
  | ok bytes =>
    rw [content, ofRead] at loads
    refine ⟨bytes, rfl, ?_⟩
    cases outcome : ofBytes path bytes with
    | error e =>
      rw [outcome] at loads
      cases loads
    | ok s' =>
      rw [outcome] at loads
      cases loads
      rfl

theorem exists_holds {w : Surroundings} {path : Path} {s : Logged Settings}
    (loads : load w.host path = .ok s) :
    ∃ entries, Holds w.files path entries ∧ Gives entries s.value := by
  obtain ⟨bytes, content, loads⟩ := load_ok loads
  obtain ⟨cs, text, loads⟩ := ofBytes_ok loads
  obtain ⟨d, document, loads⟩ := ofText_ok loads
  obtain ⟨entries, record, valid⟩ := ofData_ok loads
  exact ⟨entries, .intro content text document record, gives_of_ofEntries valid⟩

end ExprLexer.Settings
