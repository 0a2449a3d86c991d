import Mathlib.Data.List.Sort
import ExprLexer.Settings.Override

/-!
# The algebra of overrides

Changes are a map from names to optional values. One name no map may have, with or without a value:
the one under which the settings themselves are given (`override_taken`). Otherwise, where every
name with a value is one of a field, the value replaces the field's (`override_known`), and if not,
the error lists the other names (`override_unknown`). Both see only the values of the map, and the
laws of repeated overriding follow (`override_changes`).
-/

namespace ExprLexer

/-- A map from names to values, which may be left out. -/
structure Changes (α : Type) where
  entries : List (String × Option α)
  distinct : (entries.map Prod.fst).Nodup

namespace Changes

/-- The value for a name, if the map has one. -/
def value? {α : Type} (c : Changes α) (name : String) : Option α := (c.entries.lookup name).join

/-- No change has the name under which the settings to change are given. -/
def Passable {α : Type} (c : Changes α) : Prop := Profile.ownName ∉ c.entries.map Prod.fst

instance {α : Type} (c : Changes α) : Decidable c.Passable :=
  inferInstanceAs (Decidable (_ ∉ _))

/-- Only fields are given values. -/
def Known {α : Type} (c : Changes α) : Prop :=
  ∀ name v, c.value? name = some v → ∃ f : Field, f.name = name

end Changes

variable {α : Type} {a b c : Changes α} {name : String} {v : α}

/-! ### Names -/

theorem Field.ofName?_eq_none_iff : Field.ofName? name = none ↔ ∀ f : Field, f.name ≠ name := by
  have every : ∀ f : Field, f ∈ Field.all := by
    intro f
    cases f <;> decide
  rw [Field.ofName?, List.find?_eq_none]
  simp only [every, forall_const, beq_iff_eq]

/-- A spelling with a hyphen names no field. -/
theorem Field.name_ne_of_hyphen : ∀ names ∈ Settings.spellings, ∀ name ∈ names,
    '-' ∈ name.toList → ∀ f : Field, f.name ≠ name := by
  have hyphenless : ∀ f : Field, '-' ∉ f.name.toList := by
    intro f
    cases f <;> decide
  intro _ _ name _ hyphen f same
  exact hyphenless f (same ▸ hyphen)

namespace Profile

theorem mem_insertName {n : String} {names : List String} :
    n ∈ insertName name names ↔ n = name ∨ n ∈ names := by
  induction names with
  | nil => exact List.mem_cons
  | cons m names ih =>
    rw [insertName]
    split
    · exact List.mem_cons
    · split
      · rw [List.mem_cons, ih, List.mem_cons, or_left_comm]
      · rename_i notBefore notBehind
        obtain rfl : name = m :=
          String.le_antisymm (String.not_lt.mp notBehind) (String.not_lt.mp notBefore)
        rw [List.mem_cons, or_self_left]

theorem pairwise_insertName {names : List String} (sorted : names.Pairwise (· < ·)) :
    (insertName name names).Pairwise (· < ·) := by
  induction names with
  | nil => exact List.pairwise_singleton _ _
  | cons m names ih =>
    obtain ⟨first, later⟩ := List.pairwise_cons.mp sorted
    rw [insertName]
    split
    · rename_i before
      refine List.pairwise_cons.mpr ⟨?_, sorted⟩
      exact List.forall_mem_cons.mpr
        ⟨before, fun n member => String.lt_trans before (first n member)⟩
    · split
      · rename_i behind
        refine List.pairwise_cons.mpr ⟨fun n member => ?_, ih later⟩
        rcases mem_insertName.mp member with rfl | there
        · exact behind
        · exact first n there
      · exact sorted

theorem mem_unknownNames {changes : List (String × Option α)} :
    name ∈ unknownNames changes ↔
      (∃ v, (name, some v) ∈ changes) ∧ ∀ f : Field, f.name ≠ name := by
  induction changes with
  | nil => simp [unknownNames]
  | cons e changes ih =>
    obtain ⟨n, _ | w⟩ := e
    · simp [unknownNames, ih]
    · rw [unknownNames]
      split
      · next counts =>
        have unknown : ∀ f : Field, f.name ≠ n :=
          Field.ofName?_eq_none_iff.mp (Option.isNone_iff_eq_none.mp counts)
        rw [mem_insertName, ih]
        constructor
        · rintro (rfl | ⟨⟨v, there⟩, other⟩)
          · exact ⟨⟨w, List.mem_cons_self⟩, unknown⟩
          · exact ⟨⟨v, List.mem_cons_of_mem _ there⟩, other⟩
        · rintro ⟨⟨v, member⟩, other⟩
          rcases List.mem_cons.mp member with here | there
          · cases here
            exact .inl rfl
          · exact .inr ⟨⟨v, there⟩, other⟩
      · next counts =>
        have known : ¬ ∀ f : Field, f.name ≠ n := fun unknown =>
          counts (Option.isNone_iff_eq_none.mpr (Field.ofName?_eq_none_iff.mpr unknown))
        rw [ih]
        refine and_congr_left fun other => exists_congr fun v => ?_
        rw [List.mem_cons, or_iff_right]
        intro here
        cases here
        exact known other

theorem pairwise_unknownNames (changes : List (String × Option α)) :
    (unknownNames changes).Pairwise (· < ·) := by
  induction changes with
  | nil => exact List.Pairwise.nil
  | cons e changes ih =>
    rw [unknownNames]
    split
    · exact pairwise_insertName ih
    · exact ih

end Profile

/-! ### Values -/

theorem last?_of_not_mem {entries : List (String × Option α)}
    (absent : name ∉ entries.map Prod.fst) : Profile.last? name entries = none := by
  induction entries with
  | nil => rfl
  | cons e entries ih =>
    obtain ⟨n, w⟩ := e
    rw [List.map_cons, List.mem_cons, not_or] at absent
    rw [Profile.last?, ih absent.2]
    exact if_neg (Ne.symm absent.1)

section

variable {entries : List (String × Option α)} (distinct : (entries.map Prod.fst).Nodup)

include distinct

theorem lookup_eq_some_iff_mem {o : Option α} :
    entries.lookup name = some o ↔ (name, o) ∈ entries := by
  induction entries with
  | nil => simp
  | cons e entries ih =>
    obtain ⟨n, w⟩ := e
    obtain ⟨fresh, later⟩ := List.nodup_cons.mp distinct
    rw [List.lookup_cons, List.mem_cons]
    by_cases same : name = n
    · subst same
      have absent : (name, o) ∉ entries := fun there => fresh (List.mem_map.mpr ⟨_, there, rfl⟩)
      simp [absent, eq_comm]
    · rw [beq_false_of_ne same, ih later]
      simp [same]

/-- In a map the last value for a name is the only one. -/
theorem last?_eq_join_lookup : Profile.last? name entries = (entries.lookup name).join := by
  induction entries with
  | nil => rfl
  | cons e entries ih =>
    obtain ⟨n, w⟩ := e
    obtain ⟨fresh, later⟩ := List.nodup_cons.mp distinct
    rw [Profile.last?, List.lookup_cons]
    by_cases same : n = name
    · subst same
      rw [last?_of_not_mem fresh, beq_self_eq_true]
      exact if_pos rfl
    · rw [ih later, beq_false_of_ne (Ne.symm same), if_neg same]
      cases (entries.lookup name).join <;> rfl

end

namespace Changes

theorem value?_eq_some_iff : c.value? name = some v ↔ (name, some v) ∈ c.entries := by
  rw [value?, Option.join_eq_some_iff, lookup_eq_some_iff_mem c.distinct]

theorem mem_unknownNames : name ∈ Profile.unknownNames c.entries ↔
    (∃ v, c.value? name = some v) ∧ ∀ f : Field, f.name ≠ name := by
  simp only [Profile.mem_unknownNames, value?_eq_some_iff]

theorem known_iff : c.Known ↔ Profile.unknownNames c.entries = [] := by
  rw [List.eq_nil_iff_forall_not_mem]
  refine forall_congr' fun name => ?_
  rw [mem_unknownNames, not_and, not_forall_not, exists_imp]

instance (c : Changes α) : Decidable c.Known := decidable_of_iff _ known_iff.symm

end Changes

namespace Profile

theorem override_taken (taken : ¬ c.Passable) (p : Profile α) :
    p.override c.entries = .error (.escaped (.givenTwice ownName)) := by
  refine if_pos (List.any_eq_true.mpr ?_)
  obtain ⟨e, there, named⟩ := List.mem_map.mp (Decidable.not_not.mp taken)
  exact ⟨e, there, beq_iff_eq.mpr named⟩

theorem override_passable (passable : c.Passable) (p : Profile α) :
    p.override c.entries =
      match unknownNames c.entries with
      | [] => .ok fun f => (last? f.name c.entries).getD (p f)
      | names => .error (.reported (.unknownSettings names)) := by
  refine if_neg fun taken => passable ?_
  obtain ⟨e, there, named⟩ := List.any_eq_true.mp taken
  exact List.mem_map.mpr ⟨e, there, beq_iff_eq.mp named⟩

theorem override_known (passable : c.Passable) (known : c.Known) (p : Profile α) :
    p.override c.entries = .ok fun f => (c.value? f.name).getD (p f) := by
  rw [override_passable passable, Changes.known_iff.mp known]
  simp only [last?_eq_join_lookup c.distinct, Changes.value?]

theorem override_unknown (passable : c.Passable) (unknown : ¬ c.Known) (p : Profile α) :
    p.override c.entries = .error (.reported (.unknownSettings (unknownNames c.entries))) := by
  rw [override_passable passable]
  split
  · next none => exact absurd (Changes.known_iff.mpr none) unknown
  · rfl

/-- Names without a value do not matter, nor does the order of the entries. -/
theorem override_congr {d : Changes α} (passable : c.Passable) (passable' : d.Passable)
    (same : ∀ name, d.value? name = c.value? name) (p : Profile α) :
    p.override d.entries = p.override c.entries := by
  have knows : d.Known ↔ c.Known := by
    simp only [Changes.Known, same]
  by_cases known : c.Known
  · rw [override_known passable known, override_known passable' (knows.mpr known)]
    simp only [same]
  · rw [override_unknown passable known, override_unknown passable' (mt knows.mp known)]
    have members : ∀ n, n ∈ unknownNames d.entries ↔ n ∈ unknownNames c.entries := by
      intro n
      simp only [Changes.mem_unknownNames, same]
    rw [(pairwise_unknownNames _).eq_of_mem_iff (pairwise_unknownNames _) members]

end Profile

/-! ### Settings -/

/-- A value of some field of settings. -/
inductive Settings.Value where
  | format (f : Format)
  | flag (b : Bool)
  | text (t : Text.Points)
  deriving DecidableEq, Repr

def Settings.profile (s : Settings) : Profile Settings.Value
  | .outputFormat => .format s.outputFormat
  | .color => .flag s.color
  | .strict => .flag s.strict
  | .showDiagnostics => .flag s.showDiagnostics
  | .encoding => .text s.encoding

/-- The overrides of settings by the names of the fields. -/
def Overrides.changes (o : Overrides) : Changes Settings.Value where
  entries :=
    [("output_format", o.outputFormat.map .format), ("color", o.color.map .flag),
      ("strict", o.strict.map .flag), ("show_diagnostics", o.showDiagnostics.map .flag),
      ("encoding", o.encoding.map .text)]
  distinct := by simp

theorem Overrides.passable_changes (o : Overrides) : o.changes.Passable := by
  simp [Changes.Passable, changes, Profile.ownName]

theorem Overrides.known_changes (o : Overrides) : o.changes.Known := by
  intro name v given
  have member := Changes.value?_eq_some_iff.mp given
  simp only [changes, List.mem_cons, Prod.mk.injEq, List.not_mem_nil, or_false] at member
  rcases member with ⟨rfl, -⟩ | ⟨rfl, -⟩ | ⟨rfl, -⟩ | ⟨rfl, -⟩ | ⟨rfl, -⟩
  · exact ⟨.outputFormat, rfl⟩
  · exact ⟨.color, rfl⟩
  · exact ⟨.strict, rfl⟩
  · exact ⟨.showDiagnostics, rfl⟩
  · exact ⟨.encoding, rfl⟩

theorem Settings.override_profile (s : Settings) (o : Overrides) :
    s.profile.override o.changes.entries = .ok (s.override o).profile := by
  rw [Profile.override_known o.passable_changes o.known_changes, Except.ok.injEq]
  obtain ⟨format, color, strict, shown, encoding⟩ := o
  funext f
  cases f with
  | outputFormat => cases format <;> rfl
  | color => cases color <;> rfl
  | strict => cases strict <;> rfl
  | showDiagnostics => cases shown <;> rfl
  | encoding => cases encoding <;> rfl

/-! ### Laws -/

namespace Profile

/-- What overriding `p` by `a` and the result by `b` gives, where only fields are given values. -/
structure Composed (p : Profile α) (a b : Changes α) (q r : Profile α) : Prop where
  first : p.override a.entries = .ok q
  second : q.override b.entries = .ok r
  /-- Every field has the value given for it, be it false, zero or empty, or what it had. -/
  field_first : ∀ f : Field, q f = (a.value? f.name).getD (p f)
  field_second : ∀ f : Field, r f = ((b.value? f.name).or (a.value? f.name)).getD (p f)
  /-- Overriding in turn is overriding with the values of both. -/
  at_once : ∀ c : Changes α, c.Passable →
    (∀ name, c.value? name = (b.value? name).or (a.value? name)) → p.override c.entries = .ok r
  again : q.override a.entries = .ok q

/-- What overriding `p` by `a` gives, where some name with a value is no field's: an error that
lists all such names in order and each once. -/
structure Rejected (p : Profile α) (a : Changes α) (names : List String) : Prop where
  error : p.override a.entries = .error (.reported (.unknownSettings names))
  message : (ConfigError.unknownSettings names).message =
    "Unknown setting(s): " ++ ", ".intercalate names
  sorted : names.Pairwise (· < ·)
  mem_iff : ∀ name, name ∈ names ↔
    (∃ v, a.value? name = some v) ∧ ∀ f : Field, f.name ≠ name

/-- The laws of overriding `p` by `a` and by `b`. -/
structure Laws (p : Profile α) (a b : Changes α) : Prop where
  known : a.Known → b.Known → ∃ q r, Composed p a b q r
  unknown : ¬ a.Known → ∃ names, Rejected p a names
  /-- A name without a value is as good as a missing one. -/
  values_only : (∀ name, b.value? name = a.value? name) →
    p.override b.entries = p.override a.entries

theorem composed (passable : a.Passable) (passable' : b.Passable) (known : a.Known)
    (known' : b.Known) (p : Profile α) : ∃ q r, Composed p a b q r := by
  refine ⟨_, _, override_known passable known p, override_known passable' known' _, fun f => rfl,
    fun f => ?_, fun c free both => ?_, ?_⟩
  · cases b.value? f.name <;> rfl
  · have knows : c.Known := by
      intro name v given
      rw [both] at given
      rcases Option.or_eq_some_iff.mp given with last | ⟨-, last⟩
      · exact known' name v last
      · exact known name v last
    rw [override_known free knows, Except.ok.injEq]
    funext f
    rw [both]
    cases b.value? f.name <;> rfl
  · rw [override_known passable known, Except.ok.injEq]
    funext f
    cases a.value? f.name <;> rfl

theorem rejected (passable : a.Passable) (unknown : ¬ a.Known) (p : Profile α) :
    ∃ names, Rejected p a names :=
  ⟨_, override_unknown passable unknown p, rfl, pairwise_unknownNames _,
    fun _ => Changes.mem_unknownNames⟩

/-- Overriding leaves the profile it starts from as it is, and gives another one or an error, by the
laws of overriding. Spellings with a hyphen are names of no field, and the overrides of the command
line are changes of this kind. A change of the name under which the settings are given ends the
run. -/
theorem override_changes (p : Profile α) (a b : Changes α) (passable : a.Passable)
    (passable' : b.Passable) :
    Laws p a b ∧
      (∀ names ∈ Settings.spellings, ∀ name ∈ names, '-' ∈ name.toList →
        ∀ f : Field, f.name ≠ name) ∧
      (∀ c : Changes α, ¬ c.Passable →
        p.override c.entries = .error (.escaped (.givenTwice ownName))) ∧
      ∀ (s : Settings) (o : Overrides),
        o.changes.Passable ∧ s.profile.override o.changes.entries = .ok (s.override o).profile where
  left := ⟨fun first second => composed passable passable' first second p,
    fun unknown => rejected passable unknown p,
    fun same => override_congr passable passable' same p⟩
  right := ⟨Field.name_ne_of_hyphen, fun _ taken => override_taken taken p,
    fun s o => ⟨o.passable_changes, s.override_profile o⟩⟩

end Profile

namespace Changes

def lenient : Changes Settings.Value := ⟨[("strict", some (.flag false)), ("shade", none)], by simp⟩

def noEncoding : Changes Settings.Value :=
  ⟨[("encoding", some (.text [])), ("strict", none)], by simp⟩

def lenientNoEncoding : Changes Settings.Value :=
  ⟨[("encoding", some (.text [])), ("strict", some (.flag false))], by simp⟩

def misspelt : Changes Settings.Value :=
  ⟨[("shade", some (.text [])), ("color", some (.flag true)),
    ("output-format", some (.format .json))], by simp⟩

def nothing : Changes Settings.Value := ⟨[], by simp⟩

def ownNamed : Changes Settings.Value := ⟨[("settings", none)], by simp⟩

end Changes

open Changes in
/-- False and the empty text are values, and a hyphen makes another name. -/
theorem Profile.override_changes_falsy :
    (lenient.Passable ∧ noEncoding.Passable ∧ lenientNoEncoding.Passable ∧ lenient.Known ∧
      noEncoding.Known ∧
      (∀ name, lenientNoEncoding.value? name =
        (noEncoding.value? name).or (lenient.value? name)) ∧
      ∃ q r, (Settings.profile { strict := true }).override lenient.entries = .ok q ∧
        q.override noEncoding.entries = .ok r ∧
        (Settings.profile { strict := true }).override lenientNoEncoding.entries = .ok r ∧
        r .strict = .flag false ∧ r .encoding = .text [] ∧ r .showDiagnostics = .flag true) ∧
    misspelt.Passable ∧ ¬ misspelt.Known ∧
      (Settings.profile { strict := true }).override misspelt.entries =
        .error (.reported (.unknownSettings ["output-format", "shade"])) := by
  have passable : lenient.Passable ∧ noEncoding.Passable ∧ lenientNoEncoding.Passable ∧
      misspelt.Passable := by decide
  have known : lenient.Known ∧ noEncoding.Known := by decide
  have unknown : ¬ misspelt.Known := by decide
  have both : ∀ name, lenientNoEncoding.value? name =
      (noEncoding.value? name).or (lenient.value? name) := by
    intro name
    simp only [value?, lenient, noEncoding, lenientNoEncoding, List.lookup_cons, List.lookup_nil]
    cases name == "encoding" <;> cases name == "strict" <;> cases name == "shade" <;> rfl
  obtain ⟨q, r, composed⟩ := (override_changes (Settings.profile { strict := true }) lenient
    noEncoding passable.1 passable.2.1).1.known known.1 known.2
  obtain ⟨names, rejected⟩ := (override_changes (Settings.profile { strict := true }) misspelt
    noEncoding passable.2.2.2 passable.2.1).1.unknown unknown
  have listed : (Settings.profile { strict := true }).override misspelt.entries =
      .error (.reported (.unknownSettings ["output-format", "shade"])) := by rfl
  cases rejected.error.symm.trans listed
  have merged := composed.at_once _ passable.2.2.1 both
  exact ⟨⟨passable.1, passable.2.1, passable.2.2.1, known.1, known.2, both, q, r, composed.first,
    composed.second, merged, composed.field_second _, composed.field_second _,
    composed.field_second _⟩, passable.2.2.2, unknown, rejected.error⟩

open Changes in
/-- A change of the name under which the settings are given ends the run, though it has no value and
so the map has the values of the empty one. -/
theorem Profile.override_ownNamed :
    ownNamed.Known ∧ (∀ name, ownNamed.value? name = nothing.value? name) ∧
      (Settings.profile {}).override nothing.entries = .ok (Settings.profile {}) ∧
      (Settings.profile {}).override ownNamed.entries =
        .error (.escaped (.givenTwice "settings")) ∧
      (Escape.givenTwice "settings").message =
        "with_overrides() got multiple values for argument 'settings'" := by
  refine ⟨by decide, fun name => ?_, rfl, rfl, rfl⟩
  simp only [value?, ownNamed, nothing, List.lookup_cons, List.lookup_nil]
  cases name == "settings" <;> rfl

end ExprLexer
