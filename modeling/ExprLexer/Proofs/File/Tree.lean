import Mathlib.Data.List.Infix
import ExprLexer.File.Tree

/-!
# Where paths lead

A place in a tree is the list of names that lead to it from the root. A walk along a path keeps
what it stands on at the place that the path's names add up to, `..` taking the last name off
(`SpotAt.walk`), so that a path is of the kind that the tree has at its place (`descend?_place`).
Of an absolute path without `..` the tree alone says what is known (`kindAt_of_refused`,
`kindAt_of_not_refused`).
-/

namespace ExprLexer

namespace FileTree

/-- The node at a place. -/
def descend? (t : FileTree) : List String → Option FileTree
  | [] => some t
  | name :: names => (t.entries.lookup name).bind (descend? · names)

/-- Some name is longer than an entry's may be and is looked up in a directory. -/
def Overlong (t : FileTree) (names : List String) : Prop :=
  ∃ before name after entries, names = before ++ name :: after ∧
    t.descend? before = some (directory entries) ∧ maxName < name.utf8ByteSize

/-- The place that a name leads to. -/
def turn (place : List String) (name : String) : List String :=
  if name = ".." then place.dropLast else place ++ [name]

/-- The place that names lead to, one after another. -/
def resolve (place names : List String) : List String := names.foldl turn place

/-- No start of the names has more of `..` than of other names. -/
def NeverAbove (names : List String) : Prop :=
  ∀ first, first <+: names → 2 * first.count ".." ≤ first.length

/-- The spot at a place of the tree, above it the directories on the way there. -/
inductive SpotAt (t : FileTree) : List String → Spot → Prop
  | root : SpotAt t [] ⟨t, []⟩
  | entry {place : List String} {s : Spot} {name : String} {node : FileTree}
      (inside : SpotAt t place s) (found : s.node.entries.lookup name = some node) :
      SpotAt t (place ++ [name]) ⟨node, s.node :: s.above⟩

variable {t node : FileTree} {name : String} {names place rest : List String} {s s' : Spot}

theorem descend?_append (t : FileTree) (place names : List String) :
    t.descend? (place ++ names) = (t.descend? place).bind (descend? · names) := by
  induction place generalizing t with
  | nil => rfl
  | cons name place ih =>
    simp only [List.cons_append, descend?, Option.bind_assoc, ih]

theorem descend?_concat (found : t.descend? place = some node) (name : String) :
    t.descend? (place ++ [name]) = node.entries.lookup name := by
  rw [descend?_append, found]
  exact Option.bind_fun_some _

theorem not_overlong_nil : ¬ t.Overlong [] := by
  rintro ⟨before, name, after, entries, split, -⟩
  cases before <;> cases split

theorem not_overlong_of_short (short : ∀ name ∈ names, name.utf8ByteSize ≤ maxName) :
    ¬ t.Overlong names := by
  rintro ⟨before, name, after, entries, rfl, -, tooLong⟩
  exact Nat.not_le_of_lt tooLong (short name (by simp))

theorem overlong_cons : t.Overlong (name :: names) ↔
    (∃ es, t = directory es ∧ maxName < name.utf8ByteSize) ∨
      ∃ next, t.entries.lookup name = some next ∧ next.Overlong names := by
  constructor
  · rintro ⟨before, long, after, entries, split, there, tooLong⟩
    cases before with
    | nil =>
      cases split
      exact .inl ⟨entries, Option.some.inj there, tooLong⟩
    | cons first before =>
      cases split
      obtain ⟨next, found, there⟩ := Option.bind_eq_some_iff.mp there
      exact .inr ⟨next, found, before, long, after, entries, rfl, there, tooLong⟩
  · rintro (⟨es, rfl, tooLong⟩ | ⟨next, found, before, long, after, entries, rfl, there, tooLong⟩)
    · exact ⟨[], name, names, es, rfl, rfl, tooLong⟩
    · refine ⟨name :: before, long, after, entries, rfl, ?_, tooLong⟩
      rw [descend?, found]
      exact there

/-! ## Walking -/

theorem SpotAt.descend? (spot : SpotAt t place s) : t.descend? place = some s.node := by
  induction spot with
  | root => rfl
  | entry inside found ih => exact (descend?_concat ih _).trans found

theorem SpotAt.step (spot : SpotAt t place s) (stepped : s.step name = .ok s') :
    SpotAt t (turn place name) s' := by
  rw [Spot.step] at stepped
  split at stepped
  · cases stepped
  next es node =>
    rw [turn]
    split at stepped
    next up =>
      rw [if_pos up]
      cases spot with
      | root =>
        cases stepped
        exact .root
      | entry inside found =>
        cases stepped
        rw [List.dropLast_concat]
        exact inside
    next down =>
      rw [if_neg down]
      split at stepped
      · cases stepped
      · split at stepped
        · cases stepped
        next next found =>
          cases stepped
          exact .entry spot (by rw [node]; exact found)

theorem SpotAt.walk (spot : SpotAt t place s) (walked : s.walk names = .ok s') :
    SpotAt t (resolve place names) s' := by
  induction names generalizing place s with
  | nil =>
    cases walked
    exact spot
  | cons name names ih =>
    rw [Spot.walk] at walked
    split at walked
    next next stepped => exact ih (spot.step stepped) walked
    next => cases walked

/-- How a walk without `..` ends. -/
theorem walk_of_straight (s : Spot) (straight : ".." ∉ names) :
    (s.node.Overlong names → s.walk names = .error .nameTooLong) ∧
    (¬ s.node.Overlong names →
      (∃ s', s.walk names = .ok s' ∧ s.node.descend? names = some s'.node) ∨
      ((s.walk names = .error .notFound ∨ s.walk names = .error .notDirectory) ∧
        s.node.descend? names = none)) := by
  induction names generalizing s with
  | nil => exact ⟨fun long => absurd long not_overlong_nil, fun _ => .inl ⟨s, rfl, rfl⟩⟩
  | cons name names ih =>
    obtain ⟨down, straight⟩ := not_or.mp (mt List.mem_cons.mpr straight)
    obtain ⟨node, above⟩ := s
    simp only [overlong_cons, FileTree.descend?, Spot.walk, Spot.step, if_neg (Ne.symm down)]
    cases node with
    | file bytes =>
      simp [entries]
    | directory es =>
      by_cases long : maxName < name.utf8ByteSize
      · simp [long]
      · cases found : es.lookup name with
        | none => simp [long, entries, found]
        | some next => simpa [long, entries, found] using ih ⟨next, directory es :: above⟩ straight

/-! ## Places -/

theorem resolve_append (place names rest : List String) :
    resolve place (names ++ rest) = resolve (resolve place names) rest :=
  List.foldl_append

theorem prefix_resolve_append (place below : List String)
    (stays : ∀ first, first <+: names → 2 * first.count ".." ≤ first.length + below.length) :
    place <+: resolve (place ++ below) names := by
  induction names generalizing below with
  | nil => exact List.prefix_append place below
  | cons name names ih =>
    have shorter : ∀ first, first <+: names →
        2 * (name :: first).count ".." ≤ (name :: first).length + below.length :=
      fun first start => stays _ (List.cons_prefix_cons.mpr ⟨rfl, start⟩)
    rw [resolve, List.foldl_cons, turn, ← resolve]
    split
    next up =>
      subst up
      have nonempty : below ≠ [] := by
        rintro rfl
        have one := shorter [] List.nil_prefix
        simp at one
      rw [List.dropLast_append_of_ne_nil nonempty]
      refine ih _ fun first start => ?_
      have count := shorter first start
      rw [List.count_cons_self, List.length_cons] at count
      rw [List.length_dropLast]
      omega
    next down =>
      rw [List.append_assoc]
      refine ih _ fun first start => ?_
      have count := shorter first start
      rw [List.count_cons_of_ne down, List.length_cons] at count
      rw [List.length_append, List.length_singleton]
      omega

/-- Names that never lead above where they start lead to a place below it. -/
theorem NeverAbove.prefix_resolve (never : NeverAbove names) (place : List String) :
    place <+: resolve place names := by
  have below := prefix_resolve_append place [] never
  rwa [List.append_nil] at below

theorem neverAbove_of_straight (straight : ".." ∉ names) : NeverAbove names := by
  intro first start
  rw [List.count_eq_zero.mpr fun up => straight (start.subset up)]
  exact Nat.zero_le _

end FileTree

/-! ## Files -/

/-- The path goes from the root of a tree down. -/
structure Path.Straight (p : Path) : Prop where
  absolute : p.isAbsolute
  noUp : ".." ∉ p.parts

theorem Path.Straight.child {p : Path} (straight : p.Straight) {name : String}
    (down : name ≠ "..") : (p.child name).Straight :=
  ⟨straight.absolute, by simp [Path.child, straight.noUp, Ne.symm down]⟩

/-- A path that the system follows in every tree. -/
def Path.Short (p : Path) : Prop :=
  p.toString.utf8ByteSize < FileTree.maxPath ∧
    ∀ name ∈ p.parts, name.utf8ByteSize ≤ FileTree.maxName

instance (p : Path) : Decidable p.Short :=
  inferInstanceAs (Decidable (p.toString.utf8ByteSize < FileTree.maxPath ∧
    ∀ name ∈ p.parts, name.utf8ByteSize ≤ FileTree.maxName))

namespace Files

open FileTree

/-- The place of a path, from the root of the tree or from the working directory. -/
def place (f : Files) (p : Path) : List String :=
  resolve [] (if p.isAbsolute then p.parts else f.here ++ p.parts)

/-- What the tree has at a straight path. -/
def kind? (f : Files) (p : Path) : Option FileKind :=
  if p.hasNull then none else (f.tree.descend? p.parts).map FileTree.kind

/-- The system does not follow a straight path, for its length or a name's. -/
def Refused (f : Files) (p : Path) : Prop :=
  p.hasNull = false ∧ (maxPath ≤ p.toString.utf8ByteSize ∨ f.tree.Overlong p.parts)

variable {f : Files} {p : Path} {name : String} {k : FileKind} {spot : Spot}

theorem place_append (f : Files) (p : Path) (rest : List String) :
    f.place { p with parts := p.parts ++ rest } = resolve (f.place p) rest := by
  obtain ⟨root, parts⟩ := p
  simp only [place]
  rw [← resolve_append]
  congr 1
  by_cases absolute : root = .relative <;> simp [Path.isAbsolute, absolute]

theorem place_child (f : Files) (p : Path) (down : name ≠ "..") :
    f.place (p.child name) = f.place p ++ [name] :=
  (f.place_append p [name]).trans (if_neg down)

theorem descend?_place (located : f.locate p = .ok spot) :
    f.tree.descend? (f.place p) = some spot.node := by
  rw [locate] at located
  split at located
  · cases located
  · exact (SpotAt.root.walk located).descend?

theorem descend?_of_kindAt (known : f.kindAt p = .ok (some k)) :
    ∃ node, f.tree.descend? (f.place p) = some node ∧ node.kind = k := by
  rw [kindAt] at known
  split at known
  · cases known
  · split at known
    next spot located =>
      cases known
      exact ⟨spot.node, descend?_place located, rfl⟩
    next => split at known <;> cases known

theorem file_of_kindAt (known : f.kindAt p = .ok (some .file)) :
    ∃ bytes, f.tree.descend? (f.place p) = some (.file bytes) := by
  obtain ⟨node, there, kind⟩ := descend?_of_kindAt known
  cases node with
  | file bytes => exact ⟨bytes, there⟩
  | directory es => cases kind

theorem directory_of_kindAt (known : f.kindAt p = .ok (some .directory)) :
    ∃ es, f.tree.descend? (f.place p) = some (.directory es) := by
  obtain ⟨node, there, kind⟩ := descend?_of_kindAt known
  cases node with
  | file bytes => cases kind
  | directory es => exact ⟨es, there⟩

theorem not_refused_of_short (short : p.Short) : ¬ f.Refused p := by
  rintro ⟨-, tooLong | overlong⟩
  · exact Nat.not_le_of_lt short.1 tooLong
  · exact not_overlong_of_short short.2 overlong

theorem kindAt_of_refused (straight : p.Straight) (refused : f.Refused p) :
    f.kindAt p = .error .nameTooLong := by
  obtain ⟨noNull, tooLong⟩ := refused
  have located : f.locate p = .error .nameTooLong := by
    rw [locate, if_pos straight.absolute]
    split
    · rfl
    next short =>
      exact (walk_of_straight ⟨f.tree, []⟩ straight.noUp).1 (tooLong.resolve_left short)
  rw [kindAt, noNull, located]
  rfl

theorem kindAt_of_not_refused (straight : p.Straight) (followed : ¬ f.Refused p) :
    f.kindAt p = .ok (f.kind? p) := by
  rw [kindAt, kind?]
  cases noNull : p.hasNull with
  | true => rfl
  | false =>
    obtain ⟨short, shortNames⟩ := not_or.mp fun tooLong => followed ⟨noNull, tooLong⟩
    have located : f.locate p = Spot.walk ⟨f.tree, []⟩ p.parts := by
      rw [locate, if_neg short, if_pos straight.absolute]
    rw [located]
    rcases (walk_of_straight ⟨f.tree, []⟩ straight.noUp).2 shortNames with
      ⟨spot, walked, there⟩ | ⟨failed, nothing⟩
    · simp [walked, there]
    · rcases failed with failed | failed <;> simp [failed, nothing]

end Files

end ExprLexer
