import ExprLexer.Proofs.Encoding.Name
import ExprLexer.Proofs.Source

/-!
# Sources in encodings that do not exist

What the name of its encoding does to a source by itself (`load_unnamed`). A name that no codec has
is refused if there is anything to decode; one with surrogates or with a null character is not even
looked up, and ends the run.
-/

namespace ExprLexer

open Text (Points)

/-- Some codec has the name: that of one of the eleven encodings, or one of the registry. -/
def Registry.Has (r : Registry) (name : String) : Prop :=
  (∃ e, Encoding.Named name e) ∨ ∃ c, r.find? (Encoding.folded name) = some c

theorem Registry.codec?_eq_none_iff {r : Registry} {name : String} :
    r.codec? name = none ↔ ¬ r.Has name := by
  rw [Has, not_or, not_exists, not_exists, ← Encoding.ofName?_eq_none_iff, codec?]
  cases Encoding.ofName? name with
  | some e =>
    have some_ := Option.some_ne_none e
    exact iff_of_false (Option.some_ne_none e.codec) fun none_ => some_ none_.1
  | none =>
    have normal_ : Encoding.normal name.toList = Encoding.folded name := Encoding.normal_eq _
    rw [normal_, Option.eq_none_iff_forall_ne_some]
    exact (and_iff_right rfl).symm

namespace Source

open Encoding (Named)

variable {w : Surroundings} {codecs : Registry} {name : Points} {s : String} {origin : Origin}
  {bytes : List UInt8} {outcome : Except (Problem SourceError) (Logged Points)}

/-- The outcome of reading the bytes at an origin in the encoding of a name: loading a file, or
reading what the name of a source stands for. -/
inductive Attempt (w : Surroundings) (name : Points) :
    Origin → List UInt8 → Except (Problem SourceError) (Logged Points) → Prop
  | load {path : Path} {bytes : List UInt8} (content : w.files.read path = .ok bytes) :
      Attempt w name (.file path) bytes (load w.host path name)
  | file {source : String} {bytes : List UInt8} (other : source ≠ inputName)
      (content : w.files.read (Path.ofString source) = .ok bytes) :
      Attempt w name (.file (Path.ofString source)) bytes (read w.host source name)
  | input {bytes : List UInt8} (content : w.input = .ok bytes) :
      Attempt w name .input bytes (read w.host inputName name)

theorem Attempt.eq (attempt : Attempt w name origin bytes outcome) :
    outcome = (ofBytes w.codecs origin name bytes).map (logged origin) := by
  cases attempt with
  | load content => exact load_of_read content name
  | file other content =>
    rw [read, if_neg other]
    exact load_of_read content name
  | input content => exact read_of_input content name

/-! ### Names without surrogates -/

theorem decode_null (null : '\x00' ∈ s.toList) :
    decode codecs origin s bytes = .error (.escaped .nullInEncoding) :=
  if_pos (List.contains_iff_mem.mpr null)

theorem decode_unnamed (clean : '\x00' ∉ s.toList) (unnamed : ¬ codecs.Has s) :
    decode codecs origin s bytes =
      if bytes = [] then .ok [] else .error (.reported (.unknownEncoding s)) := by
  have noNull : s.toList.contains '\x00' = false := by simpa using clean
  rw [decode, noNull, if_neg Bool.false_ne_true, Registry.codec?_eq_none_iff.mpr unnamed]

/-- A codec that exists can only fail to decode. -/
inductive Decoded (s : String) (origin : Origin) : Except (Problem SourceError) Points → Prop
  | text (t : Points) : Decoded s origin (.ok t)
  | fault (f : Encoding.Fault) :
      Decoded s origin (.error (.reported (.undecodable origin s f)))
  | other (kind message : String) : Decoded s origin (.error (.escaped (.codec kind message)))

theorem decode_named (origin : Origin) (bytes : List UInt8) (clean : '\x00' ∉ s.toList)
    (named : codecs.Has s) : Decoded s origin (decode codecs origin s bytes) := by
  have noNull : s.toList.contains '\x00' = false := by simpa using clean
  rw [decode, noNull, if_neg Bool.false_ne_true]
  split_ifs
  · exact .text []
  · cases found : codecs.codec? s with
    | none => exact absurd named (Registry.codec?_eq_none_iff.mp found)
    | some c =>
      dsimp only
      split
      · exact .fault _
      · exact .other _ _
      · exact .text _

theorem decode_eq_null_iff :
    decode codecs origin s bytes = .error (.escaped .nullInEncoding) ↔ '\x00' ∈ s.toList := by
  refine ⟨fun failed => ?_, decode_null⟩
  by_contra clean
  by_cases named : codecs.Has s
  · have decoded := decode_named origin bytes clean named
    rw [failed] at decoded
    cases decoded
  · rw [decode_unnamed clean named] at failed
    split at failed <;> cases failed

theorem decode_eq_unknown_iff {s' : String} :
    decode codecs origin s bytes = .error (.reported (.unknownEncoding s')) ↔
      s = s' ∧ '\x00' ∉ s.toList ∧ bytes ≠ [] ∧ ¬ codecs.Has s := by
  constructor
  · intro failed
    have clean : '\x00' ∉ s.toList := fun null => by
      cases failed.symm.trans (decode_null null)
    have unnamed : ¬ codecs.Has s := fun named => by
      have decoded := decode_named origin bytes clean named
      rw [failed] at decoded
      cases decoded
    rw [decode_unnamed clean unnamed] at failed
    split at failed
    · cases failed
    · next some_ =>
      cases failed
      exact ⟨rfl, clean, some_, unnamed⟩
  · rintro ⟨rfl, clean, some_, unnamed⟩
    rw [decode_unnamed clean unnamed, if_neg some_]

theorem decode_ne_unencodable (t : Points) :
    decode codecs origin s bytes ≠ .error (.escaped (.unencodable t)) := by
  intro failed
  by_cases null : '\x00' ∈ s.toList
  · cases failed.symm.trans (decode_null null)
  by_cases named : codecs.Has s
  · have decoded := decode_named origin bytes null named
    rw [failed] at decoded
    cases decoded
  · rw [decode_unnamed null named] at failed
    split at failed <;> cases failed

/-! ### All names -/

/-- What the name of an encoding by itself does to an outcome of reading the bytes. -/
structure Follows (codecs : Registry) (name : Points) (origin : Origin) (bytes : List UInt8)
    (outcome : Except (Problem SourceError) (Logged Points)) : Prop where
  surrogates : outcome = .error (.escaped (.unencodable name)) ↔ ∀ s, name ≠ .ofString s
  null : outcome = .error (.escaped .nullInEncoding) ↔
    ∃ s, name = .ofString s ∧ '\x00' ∈ s.toList
  unknown : ∀ s, outcome = .error (.reported (.unknownEncoding s)) ↔
    name = .ofString s ∧ '\x00' ∉ s.toList ∧ bytes ≠ [] ∧ ¬ codecs.Has s
  /-- Of no bytes a name that no codec has gives the empty text. -/
  empty : ∀ s, name = .ofString s → ¬ codecs.Has s → ∀ source, outcome = .ok source ↔
    '\x00' ∉ s.toList ∧ bytes = [] ∧ source = logged origin []
  named : ∀ s, name = .ofString s → '\x00' ∉ s.toList → codecs.Has s →
    ∃ x, Decoded s origin x ∧ outcome = x.map (logged origin)

/-- The name itself is refused: no codec has it, or none may look like that. -/
def NameRefused (name : Points) (outcome : Except (Problem SourceError) (Logged Points)) : Prop :=
  outcome = .error (.escaped (.unencodable name)) ∨ outcome = .error (.escaped .nullInEncoding) ∨
    ∃ s, outcome = .error (.reported (.unknownEncoding s))

theorem follows_of_surrogates (surrogates : ∀ s, name ≠ .ofString s) :
    Follows codecs name origin bytes (.error (.escaped (.unencodable name))) where
  surrogates := iff_of_true rfl surrogates
  null := iff_of_false nofun fun ⟨s, same, _⟩ => surrogates s same
  unknown s := iff_of_false nofun fun ⟨same, _⟩ => surrogates s same
  empty s same := absurd same (surrogates s)
  named s same := absurd same (surrogates s)

theorem follows_of_string (s : String) : Follows codecs (.ofString s) origin bytes
    ((decode codecs origin s bytes).map (logged origin)) where
  surrogates := by
    rw [map_logged_eq_error_iff]
    exact iff_of_false (decode_ne_unencodable _) fun none_ => none_ s rfl
  null := by
    rw [map_logged_eq_error_iff, decode_eq_null_iff]
    refine ⟨fun null => ⟨s, rfl, null⟩, fun ⟨s', same, null⟩ => ?_⟩
    rwa [Points.ofString_injective same]
  unknown s' := by
    rw [map_logged_eq_error_iff, decode_eq_unknown_iff, Points.ofString_injective.eq_iff]
    refine and_congr_right fun same => ?_
    rw [same]
  empty s' same unnamed source := by
    obtain rfl := Points.ofString_injective same
    by_cases null : '\x00' ∈ s.toList
    · rw [decode_null null]
      exact iff_of_false nofun fun conditions => conditions.1 null
    · rw [decode_unnamed null unnamed]
      by_cases empty : bytes = []
      · rw [if_pos empty, Except.map, Except.ok.injEq]
        exact ⟨fun same => ⟨null, empty, same.symm⟩, fun conditions => conditions.2.2.symm⟩
      · rw [if_neg empty]
        exact iff_of_false nofun fun conditions => empty conditions.2.1
  named s' same clean named := by
    obtain rfl := Points.ofString_injective same
    exact ⟨_, decode_named origin bytes clean named, rfl⟩

theorem Attempt.follows (attempt : Attempt w name origin bytes outcome) :
    Follows w.codecs name origin bytes outcome := by
  rw [attempt.eq, ofBytes]
  cases string : name.toString? with
  | some s =>
    obtain rfl := Points.toString?_eq_some_iff.mp string
    exact follows_of_string s
  | none =>
    refine follows_of_surrogates fun s same => ?_
    rw [Points.toString?_eq_some_iff.mpr same] at string
    cases string

theorem Attempt.nameRefused_iff (attempt : Attempt w name origin bytes outcome)
    (some_ : bytes ≠ []) :
    NameRefused name outcome ↔
      ∀ s, name = .ofString s → '\x00' ∉ s.toList → ¬ w.codecs.Has s := by
  rw [NameRefused, attempt.follows.surrogates, attempt.follows.null]
  simp only [attempt.follows.unknown]
  constructor
  · rintro (surrogates | ⟨s, rfl, null⟩ | ⟨s, rfl, clean, -, unnamed⟩) s' same clean'
    · exact absurd same (surrogates s')
    · exact absurd (Points.ofString_injective same ▸ null) clean'
    · exact Points.ofString_injective same ▸ unnamed
  · intro refused
    by_cases surrogates : ∀ s, name ≠ .ofString s
    · exact .inl surrogates
    · obtain ⟨s, same⟩ := not_forall_not.mp surrogates
      by_cases null : '\x00' ∈ s.toList
      · exact .inr (.inl ⟨s, same, null⟩)
      · exact .inr (.inr ⟨s, same, null, some_, refused s same null⟩)

/-- What comes of a name by itself, in loading a file and in reading a source, whatever other codecs
the system has. So it depends on the name alone whether it is refused, as long as there are
bytes. -/
theorem load_unnamed (attempt : Attempt w name origin bytes outcome) :
    Follows w.codecs name origin bytes outcome ∧
    ∀ w' origin' bytes' outcome', w'.codecs = w.codecs → Attempt w' name origin' bytes' outcome' →
      bytes ≠ [] → bytes' ≠ [] → (NameRefused name outcome' ↔ NameRefused name outcome) := by
  refine ⟨attempt.follows, fun w' _ _ _ system attempt' some_ some_' => ?_⟩
  rw [attempt'.nameRefused_iff some_', attempt.nameRefused_iff some_, system]

theorem load_unnamed_hex :
    Attempt (sameBytes [0x78]) (.ofString "hex") .input [0x78]
        (read (sameBytes [0x78]).host "-" (.ofString "hex")) ∧
      read (sameBytes [0x78]).host "-" (.ofString "hex") =
        .error (.reported (.unknownEncoding "hex")) := by
  have attempt : Attempt (sameBytes [0x78]) (.ofString "hex") .input [0x78]
      (read (sameBytes [0x78]).host "-" (.ofString "hex")) := .input rfl
  have unnamed : ¬ Registry.empty.Has "hex" := Registry.codec?_eq_none_iff.mp (by decide)
  obtain ⟨follows, -⟩ := load_unnamed attempt
  exact ⟨attempt, (follows.unknown "hex").mpr ⟨rfl, by decide, List.cons_ne_nil _ _, unnamed⟩⟩

/-- Not every name that no codec has is an error: without bytes it is not looked up. -/
theorem unnamed_not_reported : ¬ ∀ w name origin bytes outcome,
    Attempt w name origin bytes outcome → (∀ s, name = .ofString s → ¬ w.codecs.Has s) →
      ∃ e, outcome = .error (.reported e) := by
  intro all
  have unnamed : ∀ s, Points.ofString "nosuch" = .ofString s → ¬ Registry.empty.Has s := by
    intro s same
    rw [← Points.ofString_injective same]
    exact Registry.codec?_eq_none_iff.mp (by decide)
  obtain ⟨e, failed⟩ := all (sameBytes []) (.ofString "nosuch") .input [] _ (.input rfl) unnamed
  have read_ : read (sameBytes []).host inputName (.ofString "nosuch") =
      .ok (logged .input []) := by rfl
  cases failed.symm.trans read_

end Source

end ExprLexer
