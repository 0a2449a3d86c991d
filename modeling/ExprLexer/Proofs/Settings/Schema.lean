import ExprLexer.Proofs.Encoding.Utf8
import ExprLexer.Proofs.Schema.Record
import ExprLexer.Proofs.Schema.Value
import ExprLexer.Proofs.Settings.Load

/-!
# The schema of settings

`Fits` says which mappings are records of settings, and `Describes` which settings these are. A file
with a mapping loads just if it fits (`load_fits`). Both are about what the entries are, so their
order does not matter.
-/

namespace ExprLexer

namespace Settings

open Schema (Has Once)

variable {entries entries' : List (Data × Data)} {s : Settings}

/-! ### Keys -/

theorem mem_used_iff {name : String} :
    name ∈ used entries ↔
      ∃ names ∈ spellings, ∃ d, Schema.find? entries names = some (name, d) := by
  rw [used, List.mem_filterMap]
  refine exists_congr fun names => and_congr_right fun _ => ?_
  rw [Option.map_eq_some_iff]
  constructor
  · rintro ⟨⟨_, d⟩, found, rfl⟩
    exact ⟨d, found⟩
  · rintro ⟨d, found⟩
    exact ⟨(name, d), found, rfl⟩

/-- No spelling is one of two fields. -/
theorem spellings_disjoint : ∀ names ∈ spellings, ∀ names' ∈ spellings, ∀ name ∈ names,
    name ∈ names' → names = names' := by
  decide

/-- No key is extra just if all are spellings of fields and no field is given in two of them. -/
theorem extras_used_eq_nil_iff : Schema.extras (used entries) entries = [] ↔
    (∀ e ∈ entries, ∃ names ∈ spellings, ∃ name ∈ names, e.1 = .ofString name) ∧
      ∀ names ∈ spellings, Once entries names := by
  rw [Schema.extras_eq_nil_iff]
  constructor
  · intro all
    refine ⟨fun e member => ?_, fun names field a amongA b amongB hasA hasB => ?_⟩
    · obtain ⟨name, among, same⟩ := all e member
      obtain ⟨names, field, d, found⟩ := mem_used_iff.mp among
      exact ⟨names, field, name, (Schema.of_find? found).1, same⟩
    · -- The field is found under one name, which is both of them.
      have found : ∀ c ∈ names, Has entries c → ∃ d, Schema.find? entries names = some (c, d) := by
        rintro c among ⟨d, entry⟩
        obtain ⟨name, taken, same⟩ := all _ entry
        obtain rfl := Data.ofString_injective same
        obtain ⟨names', field', d', found⟩ := mem_used_iff.mp taken
        obtain rfl := spellings_disjoint names field names' field' c among (Schema.of_find? found).1
        exact ⟨d', found⟩
      obtain ⟨d, foundA⟩ := found a amongA hasA
      obtain ⟨d', foundB⟩ := found b amongB hasB
      exact congrArg Prod.fst (Option.some.inj (foundA.symm.trans foundB))
  · rintro ⟨known, once⟩ ⟨key, d⟩ member
    obtain ⟨names, field, name, among, same⟩ := known _ member
    obtain rfl : key = .ofString name := same
    cases found : Schema.find? entries names with
    | none => exact absurd ⟨d, member⟩ (Schema.find?_eq_none_iff.mp found name among)
    | some p =>
      obtain ⟨other, d'⟩ := p
      obtain ⟨among', here⟩ := Schema.of_find? found
      have present : Has entries other := by
        by_contra missing
        cases here.symm.trans (Schema.lookup?_eq_none_iff_has.mpr missing)
      obtain rfl := once names field _ among _ among' ⟨d, member⟩ present
      exact ⟨name, mem_used_iff.mpr ⟨names, field, d', found⟩, rfl⟩

/-! ### Fields -/

variable {α : Type} {names : List String} {usual value : α} {Stands : Data → α → Prop}

/-- The value of a field: what the entry under one of its names stands for, else the usual one. -/
inductive Field.Given (entries : List (Data × Data)) (names : List String) (usual : α)
    (Stands : Data → α → Prop) : α → Prop
  | entry {name : String} {d : Data} {value : α} (among : name ∈ names)
      (entry : (.ofString name, d) ∈ entries) (stands : Stands d value) :
      Given entries names usual Stands value
  | usual (missing : ∀ name ∈ names, ¬ Has entries name) : Given entries names usual Stands usual

/-- Every entry under a name of the field has the property. -/
def Field.Each (entries : List (Data × Data)) (names : List String) (P : Data → Prop) : Prop :=
  ∀ name ∈ names, ∀ d, (.ofString name, d) ∈ entries → P d

theorem optional_eq_ok_iff {read : Data → Except Schema.Cause α} (distinct : Data.Distinct entries)
    (once : Once entries names) (reads : ∀ d a, read d = .ok a ↔ Stands d a) :
    Schema.optional entries names usual read = .ok value ↔
      Field.Given entries names usual Stands value := by
  constructor
  · intro taken
    cases takes_of_optional taken with
    | given found read_ =>
      obtain ⟨among, entry⟩ := (Schema.find?_eq_some_iff distinct once).mp found
      exact .entry among entry ((reads _ _).mp read_)
    | usual missing => exact .usual (Schema.find?_eq_none_iff.mp missing)
  · intro given
    cases given with
    | entry among entry stands =>
      rw [Schema.optional, (Schema.find?_eq_some_iff distinct once).mpr ⟨among, entry⟩]
      dsimp only
      rw [(reads _ _).mpr stands]
    | usual missing => rw [Schema.optional, Schema.find?_eq_none_iff.mpr missing]

/-- A field has a value just if its entry, if there is one, stands for one. -/
theorem exists_given_iff (distinct : Data.Distinct entries) (once : Once entries names) :
    (∃ value, Field.Given entries names usual Stands value) ↔
      Field.Each entries names fun d => ∃ value, Stands d value := by
  constructor
  · rintro ⟨value, given⟩ name among d entry
    cases given with
    | entry among' entry' stands =>
      have here := (Schema.find?_eq_some_iff distinct once).mpr ⟨among, entry⟩
      have there := (Schema.find?_eq_some_iff distinct once).mpr ⟨among', entry'⟩
      cases here.symm.trans there
      exact ⟨value, stands⟩
    | usual missing => exact absurd ⟨d, entry⟩ (missing name among)
  · intro each
    by_cases missing : ∀ name ∈ names, ¬ Has entries name
    · exact ⟨usual, .usual missing⟩
    · simp only [not_forall, not_not] at missing
      obtain ⟨name, among, d, entry⟩ := missing
      obtain ⟨value, stands⟩ := each name among d entry
      exact ⟨value, .entry among entry stands⟩

/-! ### Records -/

/-- The mapping is a record of settings. Every key is a spelling of a field, no field is given in
both of its spellings, and every value is one for its field. -/
structure Fits (entries : List (Data × Data)) : Prop where
  known : ∀ e ∈ entries, ∃ name ∈ ["output-format", "output_format", "color", "strict",
    "show-diagnostics", "show_diagnostics", "encoding"], e.1 = .ofString name
  oneFormat : ¬ (Has entries "output-format" ∧ Has entries "output_format")
  oneShown : ¬ (Has entries "show-diagnostics" ∧ Has entries "show_diagnostics")
  outputFormat : Field.Each entries ["output-format", "output_format"] fun d =>
    ∃ f : Format, d = .ofString f.name
  color : Field.Each entries ["color"] fun d => ∃ b, Schema.Flag d b
  strict : Field.Each entries ["strict"] fun d => ∃ b, Schema.Flag d b
  showDiagnostics : Field.Each entries ["show-diagnostics", "show_diagnostics"] fun d =>
    ∃ b, Schema.Flag d b
  encoding : Field.Each entries ["encoding"] fun d => ∃ t, Schema.HoldsPoints d t

/-- The settings are what the entries give for each field, and as usual where they give nothing. -/
structure Describes (entries : List (Data × Data)) (s : Settings) : Prop where
  outputFormat : Field.Given entries ["output-format", "output_format"] .text
    (fun d f => d = .ofString (Format.name f)) s.outputFormat
  color : Field.Given entries ["color"] false Schema.Flag s.color
  strict : Field.Given entries ["strict"] false Schema.Flag s.strict
  showDiagnostics : Field.Given entries ["show-diagnostics", "show_diagnostics"] true Schema.Flag
    s.showDiagnostics
  encoding : Field.Given entries ["encoding"] (.ofString "utf-8") Schema.HoldsPoints s.encoding

theorem once_singleton (entries : List (Data × Data)) (name : String) : Once entries [name] := by
  intro a amongA b amongB _ _
  rw [List.mem_singleton.mp amongA, List.mem_singleton.mp amongB]

theorem once_pair_iff {a b : String} (different : a ≠ b) :
    Once entries [a, b] ↔ ¬ (Has entries a ∧ Has entries b) := by
  constructor
  · rintro once ⟨hasA, hasB⟩
    exact different (once a (by simp) b (by simp) hasA hasB)
  · intro one c amongC d amongD hasC hasD
    simp only [List.mem_cons, List.not_mem_nil, or_false] at amongC amongD
    rcases amongC with rfl | rfl <;> rcases amongD with rfl | rfl
    · rfl
    · exact absurd ⟨hasC, hasD⟩ one
    · exact absurd ⟨hasD, hasC⟩ one
    · rfl

theorem known_iff :
    (∀ e ∈ entries, ∃ names ∈ spellings, ∃ name ∈ names, e.1 = .ofString name) ↔
      ∀ e ∈ entries, ∃ name ∈ ["output-format", "output_format", "color", "strict",
        "show-diagnostics", "show_diagnostics", "encoding"], e.1 = .ofString name := by
  have whole : spellings.flatten = ["output-format", "output_format", "color", "strict",
    "show-diagnostics", "show_diagnostics", "encoding"] := rfl
  refine forall₂_congr fun e _ => ?_
  rw [← whole]
  constructor
  · rintro ⟨names, field, name, among, same⟩
    exact ⟨name, List.mem_flatten.mpr ⟨names, field, among⟩, same⟩
  · rintro ⟨name, member, same⟩
    obtain ⟨names, field, among⟩ := List.mem_flatten.mp member
    exact ⟨names, field, name, among, same⟩

theorem once_iff : (∀ names ∈ spellings, Once entries names) ↔
    ¬ (Has entries "output-format" ∧ Has entries "output_format") ∧
      ¬ (Has entries "show-diagnostics" ∧ Has entries "show_diagnostics") := by
  rw [← once_pair_iff (by decide), ← once_pair_iff (by decide)]
  constructor
  · intro once
    exact ⟨once outputFormatNames (by decide), once showDiagnosticsNames (by decide)⟩
  · rintro ⟨format, shown⟩ names field
    simp only [spellings, List.mem_cons, List.not_mem_nil, or_false] at field
    rcases field with rfl | rfl | rfl | rfl | rfl
    · exact format
    · exact once_singleton entries _
    · exact once_singleton entries _
    · exact shown
    · exact once_singleton entries _

theorem format_eq_ok_iff {d : Data} {f : Format} :
    Schema.oneOf Format.all Format.name d = .ok f ↔ d = .ofString f.name := by
  refine Schema.oneOf_eq_ok_iff (fun f => ?_) (fun f g same => ?_)
  · cases f <;> decide
  · revert same
    cases f <;> cases g <;> decide

/-- Settings are read field by field, from entries of which none is extra. -/
theorem ofEntries_eq_ok_iff_fields : ofEntries entries = .ok s ↔
    Schema.extras (used entries) entries = [] ∧
      Schema.optional entries outputFormatNames .text (Schema.oneOf Format.all Format.name) =
        .ok s.outputFormat ∧
      Schema.optional entries colorNames false Schema.flag = .ok s.color ∧
      Schema.optional entries strictNames false Schema.flag = .ok s.strict ∧
      Schema.optional entries showDiagnosticsNames true Schema.flag = .ok s.showDiagnostics ∧
      Schema.optional entries encodingNames (.ofString "utf-8") Schema.points = .ok s.encoding := by
  constructor
  · intro valid
    unfold ofEntries at valid
    dsimp only at valid
    split at valid
    · rename_i format color strict shown encoding none_
      cases valid
      exact ⟨none_, format, color, strict, shown, encoding⟩
    · cases valid
  · rintro ⟨none_, format, color, strict, shown, encoding⟩
    unfold ofEntries
    dsimp only
    rw [format, color, strict, shown, encoding, none_]

theorem ofEntries_eq_ok_iff (distinct : Data.Distinct entries) :
    ofEntries entries = .ok s ↔
      ((∀ e ∈ entries, ∃ names ∈ spellings, ∃ name ∈ names, e.1 = .ofString name) ∧
        ∀ names ∈ spellings, Once entries names) ∧ Describes entries s := by
  rw [ofEntries_eq_ok_iff_fields, extras_used_eq_nil_iff]
  refine and_congr_right fun ⟨_, once⟩ => ?_
  rw [optional_eq_ok_iff distinct (once outputFormatNames (by decide)) fun _ _ => format_eq_ok_iff,
    optional_eq_ok_iff distinct (once colorNames (by decide)) fun _ _ => Schema.flag_eq_ok_iff,
    optional_eq_ok_iff distinct (once strictNames (by decide)) fun _ _ => Schema.flag_eq_ok_iff,
    optional_eq_ok_iff distinct (once showDiagnosticsNames (by decide))
      fun _ _ => Schema.flag_eq_ok_iff,
    optional_eq_ok_iff distinct (once encodingNames (by decide))
      fun _ _ => Schema.points_eq_ok_iff]
  constructor
  · rintro ⟨format, color, strict, shown, encoding⟩
    exact ⟨format, color, strict, shown, encoding⟩
  · rintro ⟨format, color, strict, shown, encoding⟩
    exact ⟨format, color, strict, shown, encoding⟩

theorem exists_ofEntries_iff (distinct : Data.Distinct entries) :
    (∃ s, ofEntries entries = .ok s) ↔ Fits entries := by
  constructor
  · rintro ⟨s, valid⟩
    obtain ⟨⟨known, once⟩, describes⟩ := (ofEntries_eq_ok_iff distinct).mp valid
    obtain ⟨oneFormat, oneShown⟩ := once_iff.mp once
    exact ⟨known_iff.mp known, oneFormat, oneShown,
      (exists_given_iff distinct (once outputFormatNames (by decide))).mp
        ⟨_, describes.outputFormat⟩,
      (exists_given_iff distinct (once colorNames (by decide))).mp ⟨_, describes.color⟩,
      (exists_given_iff distinct (once strictNames (by decide))).mp ⟨_, describes.strict⟩,
      (exists_given_iff distinct (once showDiagnosticsNames (by decide))).mp
        ⟨_, describes.showDiagnostics⟩,
      (exists_given_iff distinct (once encodingNames (by decide))).mp ⟨_, describes.encoding⟩⟩
  · intro fits
    have once := once_iff.mpr ⟨fits.oneFormat, fits.oneShown⟩
    obtain ⟨format, outputFormat⟩ :=
      (exists_given_iff distinct (once outputFormatNames (by decide))).mpr fits.outputFormat
    obtain ⟨color, colored⟩ :=
      (exists_given_iff distinct (once colorNames (by decide))).mpr fits.color
    obtain ⟨strict, stricts⟩ :=
      (exists_given_iff distinct (once strictNames (by decide))).mpr fits.strict
    obtain ⟨shown, shows⟩ :=
      (exists_given_iff distinct (once showDiagnosticsNames (by decide))).mpr fits.showDiagnostics
    obtain ⟨encoding, encodes⟩ :=
      (exists_given_iff distinct (once encodingNames (by decide))).mpr fits.encoding
    exact ⟨⟨format, color, strict, shown, encoding⟩, (ofEntries_eq_ok_iff distinct).mpr
      ⟨⟨known_iff.mpr fits.known, once⟩, outputFormat, colored, stricts, shows, encodes⟩⟩

/-- Any text will do for an encoding, though none has a name with surrogates. -/
example : ofEntries [(.ofString "encoding", .text [0xD83D, 0xDE00])] =
    .ok { encoding := [0xD83D, 0xDE00] } := rfl

/-! ### Order -/

theorem has_perm {name : String} (perm : entries'.Perm entries) :
    Has entries' name ↔ Has entries name := exists_congr fun _ => perm.mem_iff

theorem Field.Given.perm (given : Given entries names usual Stands value)
    (perm : entries'.Perm entries) : Given entries' names usual Stands value := by
  cases given with
  | entry among entry stands => exact .entry among (perm.mem_iff.mpr entry) stands
  | usual missing => exact .usual fun name among has => missing name among ((has_perm perm).mp has)

theorem Describes.perm (describes : Describes entries s) (perm : entries'.Perm entries) :
    Describes entries' s :=
  ⟨describes.outputFormat.perm perm, describes.color.perm perm, describes.strict.perm perm,
    describes.showDiagnostics.perm perm, describes.encoding.perm perm⟩

theorem ofEntries_perm (distinct : Data.Distinct entries) (distinct' : Data.Distinct entries')
    (perm : entries'.Perm entries) (valid : ofEntries entries = .ok s) :
    ofEntries entries' = .ok s := by
  obtain ⟨⟨known, once⟩, describes⟩ := (ofEntries_eq_ok_iff distinct).mp valid
  refine (ofEntries_eq_ok_iff distinct').mpr ⟨⟨fun e member => ?_, ?_⟩, describes.perm perm⟩
  · exact known e (perm.mem_iff.mp member)
  · intro names field a amongA b amongB hasA hasB
    exact once names field a amongA b amongB ((has_perm perm).mp hasA) ((has_perm perm).mp hasB)

/-! ### Files -/

variable {w w' : Surroundings} {path path' : Path}

theorem Holds.distinct (holds : Holds w.files path entries) : Data.Distinct entries := by
  obtain ⟨_, _, document, record⟩ := holds
  rcases record with ⟨-, rfl⟩ | rfl
  · exact List.Pairwise.nil
  · exact Yaml.distinct_of_load document

theorem Holds.load_eq (holds : Holds w.files path entries) :
    load w.host path =
      match ofEntries entries with
      | .ok s => .ok ⟨s, .loadedSettings path.toString⟩
      | .error failure => .error (.reported (.invalid path failure)) := by
  obtain ⟨content, text, document, record⟩ := holds
  change (ofRead path (w.files.read path)).map _ = _
  rw [content, ofRead, ofBytes, text]
  dsimp only
  rw [ofText, document]
  dsimp only
  rcases record with ⟨rfl, rfl⟩ | rfl
  all_goals
    rw [ofData]
    cases ofEntries _ <;> rfl

theorem Holds.load_eq_ok_iff (holds : Holds w.files path entries) :
    (∃ record, load w.host path = .ok ⟨s, record⟩) ↔ ofEntries entries = .ok s := by
  rw [holds.load_eq]
  cases ofEntries entries with
  | ok s' =>
    constructor
    · rintro ⟨record, same⟩
      cases same
      rfl
    · intro same
      cases same
      exact ⟨_, rfl⟩
  | error failure => exact ⟨nofun, nofun⟩

/-- A configuration file with a mapping, or with nothing as one without entries, loads just if the
mapping fits the schema, and is a configuration error otherwise. The settings are those that the
entries describe. The order of the entries does not matter. -/
theorem load_fits (holds : Holds w.files path entries) :
    ((∃ s, load w.host path = .ok s) ↔ Fits entries) ∧
    (¬ Fits entries → ∃ failure, load w.host path = .error (.reported (.invalid path failure))) ∧
    (∀ s, load w.host path = .ok s → Describes entries s.value) ∧
    ∀ (w' : Surroundings) path' entries', Holds w'.files path' entries' → entries'.Perm entries →
      ∀ s, (∃ record, load w'.host path' = .ok ⟨s, record⟩) ↔
        ∃ record, load w.host path = .ok ⟨s, record⟩ := by
  have loads : (∃ s, load w.host path = .ok s) ↔ ∃ s, ofEntries entries = .ok s := by
    rw [← exists_congr fun s => holds.load_eq_ok_iff]
    exact ⟨fun ⟨⟨s, record⟩, loaded⟩ => ⟨s, record, loaded⟩, fun ⟨s, record, loaded⟩ => ⟨_, loaded⟩⟩
  refine ⟨?_, fun misfit => ?_, fun s loaded => ?_, fun w' path' entries' holds' perm s => ?_⟩
  · rw [loads, exists_ofEntries_iff holds.distinct]
  · rw [← exists_ofEntries_iff holds.distinct] at misfit
    rw [holds.load_eq]
    cases valid : ofEntries entries with
    | ok s => exact absurd ⟨s, valid⟩ misfit
    | error failure => exact ⟨failure, rfl⟩
  · exact ((ofEntries_eq_ok_iff holds.distinct).mp (holds.load_eq_ok_iff.mp ⟨_, loaded⟩)).2
  · rw [holds'.load_eq_ok_iff, holds.load_eq_ok_iff]
    exact ⟨ofEntries_perm holds'.distinct holds.distinct perm.symm,
      ofEntries_perm holds.distinct holds'.distinct perm⟩

/-- A configuration file with this text. -/
def configured (text : String) : Surroundings :=
  let bytes := (Encoding.Scheme.utf8.encode? text.toList).getD []
  ⟨⟨.directory [("c.yaml", .file bytes)], []⟩, .ok [], .empty⟩

theorem exists_encode?_utf8 (cs : List Char) :
    ∃ bytes, Encoding.Scheme.utf8.encode? cs = some bytes := by
  induction cs with
  | nil => exact ⟨[], rfl⟩
  | cons c cs ih =>
    obtain ⟨rest, text⟩ := ih
    exact ⟨_, Encoding.Scheme.encode?_cons.mpr ⟨_, rest, rfl, text, rfl⟩⟩

/-- Whether two values are the same truth value, number or text. -/
def sameScalar : Data → Data → Bool
  | .bool b, .bool c => b = c
  | .real x, .real y => x = y
  | .text s, .text t => s = t
  | _, _ => false

def sameEntries : List (Data × Data) → List (Data × Data) → Bool
  | [], [] => true
  | e :: es, f :: fs => sameScalar e.1 f.1 && sameScalar e.2 f.2 && sameEntries es fs
  | _, _ => false

/-- Whether a document is the mapping of the given scalars, as a check that can be run. -/
def readsEntries (entries : List (Data × Data)) : Except Yaml.Fault Data → Bool
  | .ok (.mapping es) => sameEntries es entries
  | _ => false

theorem eq_of_sameScalar {a b : Data} (same : sameScalar a b = true) : a = b := by
  unfold sameScalar at same
  split at same
  · exact congrArg Data.bool (of_decide_eq_true same)
  · exact congrArg Data.real (of_decide_eq_true same)
  · exact congrArg Data.text (of_decide_eq_true same)
  · cases same

theorem eq_of_sameEntries {es fs : List (Data × Data)} (same : sameEntries es fs = true) :
    es = fs := by
  induction es generalizing fs with
  | nil =>
    cases fs with
    | nil => rfl
    | cons f fs => cases same
  | cons e es ih =>
    cases fs with
    | nil => cases same
    | cons f fs =>
      rw [sameEntries, Bool.and_eq_true, Bool.and_eq_true] at same
      obtain ⟨⟨keys, values⟩, later⟩ := same
      rw [Prod.ext (eq_of_sameScalar keys) (eq_of_sameScalar values), ih later]

theorem holds_configured {text : String} {entries : List (Data × Data)}
    (reads : readsEntries entries (Yaml.load (Text.withLineFeeds text.toList)) = true) :
    Holds (configured text).files (Path.ofString "c.yaml") entries := by
  obtain ⟨bytes, encodes⟩ := exists_encode?_utf8 text.toList
  have content : (configured text).files.read (Path.ofString "c.yaml") =
      .ok ((Encoding.Scheme.utf8.encode? text.toList).getD []) := by rfl
  rw [encodes] at content
  unfold readsEntries at reads
  split at reads
  · rename_i document
    rw [eq_of_sameEntries reads] at document
    exact .intro content (Encoding.Scheme.utf8_faithful.decode_of_encode? encodes 0) document
      (.inr rfl)
  · cases reads

/-- A flag under the second spelling of its field, and one by number. -/
def flags : List (Data × Data) :=
  [(.ofString "show_diagnostics", .bool false), (.ofString "color", .real (.ofInt 1))]

theorem holds_flags : Holds (configured "show_diagnostics: off\ncolor: 1.0\n").files
    (Path.ofString "c.yaml") flags :=
  holds_configured (by decide +kernel)

theorem fits_flags : Fits flags := by
  refine (exists_ofEntries_iff holds_flags.distinct).mp
    ⟨⟨.text, true, false, false, .ofString "utf-8"⟩, ?_⟩
  rfl

theorem load_fits_flags :
    Holds (configured "show_diagnostics: off\ncolor: 1.0\n").files (Path.ofString "c.yaml") flags ∧
      ∃ s, load (configured "show_diagnostics: off\ncolor: 1.0\n").host (Path.ofString "c.yaml") =
          .ok s ∧ Describes flags s.value ∧
        ∀ (w : Surroundings) path, Holds w.files path flags.reverse →
          ∃ record, load w.host path = .ok ⟨s.value, record⟩ := by
  obtain ⟨accepts, -, describes, order⟩ := load_fits holds_flags
  obtain ⟨s, loaded⟩ := accepts.mpr fits_flags
  refine ⟨holds_flags, s, loaded, describes s loaded, fun w path holds => ?_⟩
  exact (order w path _ holds (List.reverse_perm flags) s.value).mpr ⟨s.record, loaded⟩

end Settings

end ExprLexer
