import ExprLexer.Proofs.File.Tree
import ExprLexer.Settings.Find

/-!
# The nearest configuration file

The search looks at a directory and at those that its path goes through, the longest path first
(`mem_upward`, `pairwise_upward`), and ends at the first that decides it (`findIn_eq`).

From an absolute path without `..` these are the directory and all above it in the tree, and the
search gives the nearest configuration file, unless the system does not follow a path on the way
for its length (`find_nearest`). With `..` in it a path may go through directories that are not
above the one it leads to: the search never leaves the places that the starts of the path lead to
(`find_along`), but a file there may lie below the directory (`find_below`).
-/

namespace ExprLexer

namespace Path

/-- The path itself or one that it starts with. -/
def Above (d p : Path) : Prop := d.root = p.root ∧ d.parts <+: p.parts

instance (d p : Path) : Decidable (d.Above p) :=
  inferInstanceAs (Decidable (d.root = p.root ∧ d.parts <+: p.parts))

/-- Of the paths above `p` that have the property, `d` is the longest. -/
def NearestTo (d p : Path) (P : Path → Prop) : Prop :=
  d.Above p ∧ P d ∧ ∀ e : Path, e.Above p → d.parts.length < e.parts.length → ¬ P e

/-- The directory of a path at which something of this kind is. -/
def folder (p : Path) (k : Option FileKind) : Path := if k = some .directory then p else p.parent

def upward (p : Path) : List Path := p :: p.parents

variable {d e p : Path} {P : Path → Bool} {k : Option FileKind}

theorem Straight.above (straight : p.Straight) (above : d.Above p) : d.Straight where
  absolute := by
    rw [isAbsolute, above.1]
    exact straight.absolute
  noUp up := straight.noUp (above.2.subset up)

/-- Of the paths above `p` there is one of each length. -/
theorem Above.eq_of_length (above : d.Above p) (other : e.Above p)
    (length : e.parts.length = d.parts.length) : e = d := by
  obtain ⟨root, parts⟩ := d
  obtain ⟨root', parts'⟩ := e
  have sameRoot : root' = root := other.1.trans above.1.symm
  have sameParts : parts' = parts :=
    calc parts' = p.parts.take parts'.length := List.prefix_iff_eq_take.mp other.2
      _ = p.parts.take parts.length := congrArg (p.parts.take ·) length
      _ = parts := (List.prefix_iff_eq_take.mp above.2).symm
  rw [sameRoot, sameParts]

theorem folder_above (p : Path) (k : Option FileKind) : (p.folder k).Above p := by
  rw [folder]
  split
  · exact ⟨rfl, List.prefix_rfl⟩
  · exact ⟨rfl, List.dropLast_prefix p.parts⟩

theorem upward_eq (p : Path) : p.upward =
    (List.range (p.parts.length + 1)).reverse.map fun n => { p with parts := p.parts.take n } := by
  rw [List.range_succ, List.reverse_append, List.reverse_singleton, List.singleton_append,
    List.map_cons, List.take_length]
  rfl

theorem mem_upward : d ∈ p.upward ↔ d.Above p := by
  rw [upward_eq, List.mem_map]
  constructor
  · rintro ⟨n, -, rfl⟩
    exact ⟨rfl, List.take_prefix n p.parts⟩
  · rintro ⟨sameRoot, start⟩
    refine ⟨d.parts.length, ?_, ?_⟩
    · rw [List.mem_reverse, List.mem_range]
      exact Nat.lt_succ_of_le start.length_le
    · rw [← List.prefix_iff_eq_take.mp start, ← sameRoot]

theorem pairwise_upward (p : Path) :
    p.upward.Pairwise fun d e => e.parts.length < d.parts.length := by
  rw [upward_eq, List.pairwise_map, List.pairwise_reverse]
  refine List.pairwise_lt_range.imp_of_mem fun _ inRange less => ?_
  have inside := List.mem_range.mp inRange
  simp only [List.length_take]
  omega

theorem find?_upward_eq_some_iff :
    p.upward.find? P = some d ↔ d.NearestTo p (P · = true) := by
  have sorted := pairwise_upward p
  rw [List.find?_eq_some_iff_append]
  constructor
  · rintro ⟨holds, before, after, split, none⟩
    rw [split, List.pairwise_append, List.pairwise_cons] at sorted
    refine ⟨mem_upward.mp (split ▸ by simp), holds, fun e above longer => ?_⟩
    have member := mem_upward.mpr above
    rw [split] at member
    rcases List.mem_append.mp member with inBefore | inRest
    · simpa using none e inBefore
    rcases List.mem_cons.mp inRest with rfl | inAfter
    · exact absurd longer (Nat.lt_irrefl _)
    · exact absurd longer (Nat.lt_asymm (sorted.2.1.1 e inAfter))
  · rintro ⟨above, holds, none⟩
    obtain ⟨before, after, split⟩ := List.append_of_mem (mem_upward.mpr above)
    refine ⟨holds, before, after, split, fun e inBefore => ?_⟩
    rw [split, List.pairwise_append] at sorted
    have longer := sorted.2.2 e inBefore d List.mem_cons_self
    simpa using none e (mem_upward.mp (split ▸ List.mem_append_left _ inBefore)) longer

theorem find?_upward_eq_none_iff :
    p.upward.find? P = none ↔ ∀ d : Path, d.Above p → P d = false := by
  simp only [List.find?_eq_none, mem_upward, Bool.not_eq_true]

end Path

namespace Settings

open FileTree

variable {f g : Files} {w v : Surroundings} {start p D d e : Path} {k : Option FileKind}

/-- The search ends at the directory. -/
def decides (f : Files) (d : Path) : Bool :=
  match f.kindAt (d.child fileName) with
  | .ok k => k = some .file
  | .error _ => true

/-- How a search ends that ends at the directory. -/
def answerAt (f : Files) (d : Path) : Except (Refusal × Path) (Option Path) :=
  match f.kindAt (d.child fileName) with
  | .ok _ => .ok (some (d.child fileName))
  | .error r => .error (r, d.child fileName)

/-- How a search among directories ends. -/
def answer (f : Files) (ds : List Path) : Except (Refusal × Path) (Option Path) :=
  match ds.find? (decides f) with
  | some d => answerAt f d
  | none => .ok none

theorem answer_cons (f : Files) (d : Path) (ds : List Path) :
    answer f (d :: ds) = if decides f d then answerAt f d else answer f ds := by
  rw [answer, List.find?_cons]
  cases decides f d <;> rfl

theorem findIn_eq (w : Surroundings) (ds : List Path) : findIn w.host ds = answer w.files ds := by
  induction ds with
  | nil => rfl
  | cons d ds ih =>
    have host : w.host.kindAt (d.child fileName) = w.files.kindAt (d.child fileName) := rfl
    rw [findIn, host, answer_cons, decides, answerAt]
    rcases w.files.kindAt (d.child fileName) with r | _ | _ | _
    · rfl
    · exact ih
    · rfl
    · exact ih

/-- How a search ends, by what is known of its start. -/
theorem find_eq (w : Surroundings) (start : Path) :
    find w.host start = match w.files.kindAt start with
      | .ok k => answer w.files (start.folder k).upward
      | .error r => .error (r, start) := by
  have host : w.host.kindAt start = w.files.kindAt start := rfl
  rw [find, host]
  cases w.files.kindAt start with
  | ok k => exact findIn_eq w _
  | error r => rfl

theorem answerAt_ne_none (f : Files) (d : Path) : answerAt f d ≠ .ok none := by
  rw [answerAt]
  split <;> nofun

theorem file_of_answerAt (decided : decides f d = true) (answered : answerAt f d = .ok (some p)) :
    f.kindAt (d.child fileName) = .ok (some .file) ∧ p = d.child fileName := by
  rw [decides] at decided
  rw [answerAt] at answered
  split at answered
  next k known =>
    rw [known] at decided
    cases answered
    exact ⟨known.trans (congrArg _ (of_decide_eq_true decided)), rfl⟩
  next => cases answered

theorem answer_upward_eq_none_iff :
    answer f D.upward = .ok none ↔ ∀ d : Path, d.Above D → decides f d = false := by
  rw [← Path.find?_upward_eq_none_iff, answer]
  cases D.upward.find? (decides f) with
  | none => simp
  | some d => simpa using answerAt_ne_none f d

theorem answer_upward_eq_iff {out : Except (Refusal × Path) (Option Path)}
    (ended : out ≠ .ok none) : answer f D.upward = out ↔
      ∃ d : Path, d.NearestTo D (decides f · = true) ∧ answerAt f d = out := by
  simp only [← Path.find?_upward_eq_some_iff, answer]
  cases D.upward.find? (decides f) with
  | none => simpa using ended.symm
  | some d => simp

/-! ## Along any path -/

/-- The file that a search finds is in a directory that some start of the path leads to, and the
rest of the path leads from there to the directory that the search is for. -/
theorem find_along (known : w.files.kindAt start = .ok k)
    (there : w.files.kindAt (start.folder k) = .ok (some .directory))
    (found : find w.host start = .ok (some p)) :
    ∃ d rest, p = d.child fileName ∧ start.folder k = { d with parts := d.parts ++ rest } ∧
      (∃ bytes, w.files.tree.descend? (w.files.place d ++ [fileName]) = some (.file bytes)) ∧
      (∃ es, w.files.tree.descend? (w.files.place (start.folder k)) = some (.directory es)) ∧
      w.files.place (start.folder k) = resolve (w.files.place d) rest ∧
      (NeverAbove rest → w.files.place d <+: w.files.place (start.folder k)) := by
  have ended : answer w.files (start.folder k).upward = .ok (some p) := by
    rw [find_eq, known] at found
    exact found
  obtain ⟨d, ⟨⟨sameRoot, rest, split⟩, decided, -⟩, answered⟩ :=
    (answer_upward_eq_iff (by simp)).mp ended
  have folder : start.folder k = { d with parts := d.parts ++ rest } := by
    rw [sameRoot, split]
  obtain ⟨file, rfl⟩ := file_of_answerAt decided answered
  have led : w.files.place (start.folder k) = resolve (w.files.place d) rest := by
    rw [folder, Files.place_append]
  have atFile := Files.file_of_kindAt file
  rw [Files.place_child w.files d (by decide)] at atFile
  refine ⟨d, rest, rfl, folder, atFile, Files.directory_of_kindAt there, led, fun never => ?_⟩
  rw [led]
  exact never.prefix_resolve _

/-- The working directory has a configuration file and, beside it, directories `a` and `b/c`. -/
def besideFile : Surroundings :=
  ⟨⟨.directory [("home", .directory [(fileName, .file []), ("a", .directory []),
    ("b", .directory [("c", .directory [])])])], ["home"]⟩, .ok [], .empty⟩

theorem find_along_up :
    besideFile.files.kindAt ⟨.relative, ["a", "..", "b", "c"]⟩ = .ok (some .directory) ∧
    find besideFile.host ⟨.relative, ["a", "..", "b", "c"]⟩ =
      .ok (some ⟨.relative, ["a", "..", fileName]⟩) ∧
    ∃ d rest, (⟨.relative, ["a", "..", fileName]⟩ : Path) = d.child fileName ∧
      (⟨.relative, ["a", "..", "b", "c"]⟩ : Path) = { d with parts := d.parts ++ rest } ∧
      NeverAbove rest ∧ besideFile.files.place d <+: ["home", "b", "c"] := by
  have known : besideFile.files.kindAt ⟨.relative, ["a", "..", "b", "c"]⟩ =
    .ok (some .directory) := by rfl
  have found : find besideFile.host ⟨.relative, ["a", "..", "b", "c"]⟩ =
    .ok (some ⟨.relative, ["a", "..", fileName]⟩) := by rfl
  obtain ⟨d, rest, file, start, -, -, -, inside⟩ := find_along known known found
  have parts : d.parts = ["a", ".."] := by
    have dropped := congrArg (·.parts.dropLast) file
    simpa [Path.child] using dropped.symm
  have remaining : rest = ["b", "c"] := by
    have whole : ["a", "..", "b", "c"] = d.parts ++ rest := congrArg Path.parts start
    simpa [parts] using whole.symm
  have never : NeverAbove rest := neverAbove_of_straight (by rw [remaining]; decide)
  exact ⟨known, found, d, rest, file, start, never, inside never⟩

/-- The directory `a` has a configuration file and the working directory none. -/
def innerFile : Surroundings :=
  ⟨⟨.directory [("a", .directory [(fileName, .file [])])], []⟩, .ok [], .empty⟩

theorem find_below : ¬ ∀ (w : Surroundings) start p k, w.files.kindAt start = .ok k →
    w.files.kindAt (start.folder k) = .ok (some .directory) →
    find w.host start = .ok (some p) →
      ∃ names, w.files.place p = names ++ [fileName] ∧
        names <+: w.files.place (start.folder k) := by
  intro all
  obtain ⟨names, file, inside⟩ := all innerFile ⟨.relative, ["a", ".."]⟩
    ⟨.relative, ["a", fileName]⟩ (some .directory) (by rfl) (by rfl) (by rfl)
  have top : names = [] := List.prefix_nil.mp inside
  rw [top] at file
  exact absurd file (by decide)

/-! ## From an absolute path without `..` -/

/-- The directory has a configuration file. -/
def HasFile (f : Files) (d : Path) : Prop := f.kind? (d.child fileName) = some .file

instance (f : Files) (d : Path) : Decidable (HasFile f d) :=
  inferInstanceAs (Decidable (f.kind? (d.child fileName) = some .file))

/-- The system does not follow the path that a configuration file in the directory would have. -/
def OutOfReach (f : Files) (d : Path) : Prop := f.Refused (d.child fileName)

theorem kindAt_of_outOfReach (straight : d.Straight) (far : OutOfReach f d) :
    f.kindAt (d.child fileName) = .error .nameTooLong :=
  Files.kindAt_of_refused (straight.child (by decide)) far

theorem kindAt_of_inReach (straight : d.Straight) (inReach : ¬ OutOfReach f d) :
    f.kindAt (d.child fileName) = .ok (f.kind? (d.child fileName)) :=
  Files.kindAt_of_not_refused (straight.child (by decide)) inReach

theorem decides_iff (straight : d.Straight) :
    decides f d = true ↔ HasFile f d ∨ OutOfReach f d := by
  by_cases far : OutOfReach f d
  · simp [decides, kindAt_of_outOfReach straight far, far]
  · simp [decides, kindAt_of_inReach straight far, far, HasFile]

theorem answerAt_eq_ok_iff (straight : d.Straight) :
    answerAt f d = .ok (some p) ↔ ¬ OutOfReach f d ∧ p = d.child fileName := by
  by_cases far : OutOfReach f d
  · simp [answerAt, kindAt_of_outOfReach straight far, far]
  · simp [answerAt, kindAt_of_inReach straight far, far, eq_comm]

theorem answerAt_eq_error_iff {r : Refusal} (straight : d.Straight) : answerAt f d = .error (r, p) ↔
    OutOfReach f d ∧ r = .nameTooLong ∧ p = d.child fileName := by
  by_cases far : OutOfReach f d
  · simp [answerAt, kindAt_of_outOfReach straight far, far, eq_comm]
  · simp [answerAt, kindAt_of_inReach straight far, far]

theorem nearest_decides_iff (straight : D.Straight) : d.NearestTo D (decides f · = true) ↔
    d.Above D ∧ (HasFile f d ∨ OutOfReach f d) ∧ ∀ e : Path, e.Above D →
      d.parts.length < e.parts.length → ¬ HasFile f e ∧ ¬ OutOfReach f e := by
  have known : ∀ {e : Path}, e.Above D → (decides f e = true ↔ HasFile f e ∨ OutOfReach f e) :=
    fun above => decides_iff (straight.above above)
  constructor
  · rintro ⟨above, decided, passed⟩
    refine ⟨above, (known above).mp decided, fun e other longer => not_or.mp ?_⟩
    exact mt (known other).mpr (passed e other longer)
  · rintro ⟨above, decisive, passed⟩
    refine ⟨above, (known above).mpr decisive, fun e other longer => ?_⟩
    exact mt (known other).mp (not_or.mpr (passed e other longer))

/-- The nearest directory that decides the search, when the system follows the path there. -/
theorem nearest_inReach_iff (straight : D.Straight) :
    (d.NearestTo D (decides f · = true) ∧ ¬ OutOfReach f d) ↔
      d.NearestTo D (HasFile f) ∧
        ∀ e : Path, e.Above D → d.parts.length ≤ e.parts.length → ¬ OutOfReach f e := by
  rw [nearest_decides_iff straight]
  constructor
  · rintro ⟨⟨above, decisive, passed⟩, inReach⟩
    refine ⟨⟨above, decisive.resolve_right inReach,
      fun e other longer => (passed e other longer).1⟩, fun e other longer => ?_⟩
    rcases Nat.lt_or_eq_of_le longer with longer | same
    · exact (passed e other longer).2
    · rwa [above.eq_of_length other same.symm]
  · rintro ⟨⟨above, holds, none⟩, inReach⟩
    exact ⟨⟨above, .inl holds, fun e other longer =>
      ⟨none e other longer, inReach e other (Nat.le_of_lt longer)⟩⟩,
      inReach d above (Nat.le_refl _)⟩

/-- The nearest directory that decides the search, when the system does not. -/
theorem nearest_outOfReach_iff (straight : D.Straight) :
    (d.NearestTo D (decides f · = true) ∧ OutOfReach f d) ↔
      d.NearestTo D (OutOfReach f) ∧
        ∀ e : Path, e.Above D → d.parts.length < e.parts.length → ¬ HasFile f e := by
  rw [nearest_decides_iff straight]
  constructor
  · rintro ⟨⟨above, -, passed⟩, far⟩
    exact ⟨⟨above, far, fun e other longer => (passed e other longer).2⟩,
      fun e other longer => (passed e other longer).1⟩
  · rintro ⟨⟨above, far, inReach⟩, none⟩
    exact ⟨⟨above, .inr far, fun e other longer =>
      ⟨none e other longer, inReach e other longer⟩⟩, far⟩

theorem answer_eq_ok_some_iff (straight : D.Straight) : answer f D.upward = .ok (some p) ↔
    ∃ d : Path, d.NearestTo D (HasFile f) ∧ p = d.child fileName ∧
      ∀ e : Path, e.Above D → d.parts.length ≤ e.parts.length → ¬ OutOfReach f e := by
  rw [answer_upward_eq_iff (by simp)]
  refine exists_congr fun d => ?_
  constructor
  · rintro ⟨nearest, ended⟩
    obtain ⟨inReach, place⟩ :=
      (answerAt_eq_ok_iff (straight.above nearest.1)).mp ended
    obtain ⟨nearest, followed⟩ := (nearest_inReach_iff straight).mp ⟨nearest, inReach⟩
    exact ⟨nearest, place, followed⟩
  · rintro ⟨nearest, place, followed⟩
    obtain ⟨nearest, inReach⟩ := (nearest_inReach_iff straight).mpr ⟨nearest, followed⟩
    exact ⟨nearest, (answerAt_eq_ok_iff (straight.above nearest.1)).mpr ⟨inReach, place⟩⟩

theorem answer_eq_ok_none_iff (straight : D.Straight) : answer f D.upward = .ok none ↔
    ∀ d : Path, d.Above D → ¬ HasFile f d ∧ ¬ OutOfReach f d := by
  rw [answer_upward_eq_none_iff]
  refine forall₂_congr fun d above => ?_
  rw [← Bool.not_eq_true, decides_iff (straight.above above), not_or]

theorem answer_eq_error_iff {r : Refusal} (straight : D.Straight) :
    answer f D.upward = .error (r, p) ↔ r = .nameTooLong ∧
      ∃ d : Path, d.NearestTo D (OutOfReach f) ∧ p = d.child fileName ∧
        ∀ e : Path, e.Above D → d.parts.length < e.parts.length → ¬ HasFile f e := by
  rw [answer_upward_eq_iff (by simp)]
  constructor
  · rintro ⟨d, nearest, ended⟩
    obtain ⟨far, reason, place⟩ :=
      (answerAt_eq_error_iff (straight.above nearest.1)).mp ended
    obtain ⟨nearest, none⟩ := (nearest_outOfReach_iff straight).mp ⟨nearest, far⟩
    exact ⟨reason, d, nearest, place, none⟩
  · rintro ⟨reason, d, nearest, place, none⟩
    obtain ⟨nearest, far⟩ := (nearest_outOfReach_iff straight).mpr ⟨nearest, none⟩
    exact ⟨d, nearest,
      (answerAt_eq_error_iff (straight.above nearest.1)).mpr ⟨far, reason, place⟩⟩

theorem find_of_refused (straight : start.Straight) (refused : w.files.Refused start) :
    find w.host start = .error (.nameTooLong, start) := by
  rw [find_eq, Files.kindAt_of_refused straight refused]

theorem find_of_not_refused (straight : start.Straight) (followed : ¬ w.files.Refused start) :
    find w.host start = answer w.files (start.folder (w.files.kind? start)).upward := by
  rw [find_eq, Files.kindAt_of_not_refused straight followed]

/-! ## Searches in two trees -/

theorem answerAt_congr (straight : d.Straight) (sameReach : OutOfReach g d ↔ OutOfReach f d) :
    answerAt g d = answerAt f d := by
  rw [answerAt, answerAt]
  by_cases far : OutOfReach f d
  · rw [kindAt_of_outOfReach straight far, kindAt_of_outOfReach straight (sameReach.mpr far)]
  · rw [kindAt_of_inReach straight far, kindAt_of_inReach straight (mt sameReach.mp far)]

/-- What is further up than a configuration file does not matter. -/
theorem answer_congr (straight : D.Straight)
    (sameReach : ∀ d : Path, d.Above D → (OutOfReach g d ↔ OutOfReach f d))
    (same : ∀ d : Path, d.Above D →
      (∀ e : Path, e.Above D → d.parts.length < e.parts.length → ¬ HasFile f e) →
        (HasFile g d ↔ HasFile f d)) :
    answer g D.upward = answer f D.upward := by
  have decided : ∀ d : Path, d.Above D →
      (∀ e : Path, e.Above D → d.parts.length < e.parts.length → ¬ HasFile f e) →
        decides g d = decides f d := by
    intro d above none
    rw [Bool.eq_iff_iff, decides_iff (straight.above above), decides_iff (straight.above above),
      same d above none, sameReach d above]
  rcases eq_or_ne (answer f D.upward) (.ok none) with nothing | ended
  · have passed := (answer_eq_ok_none_iff straight).mp nothing
    rw [nothing, answer_upward_eq_none_iff]
    intro d above
    rw [decided d above fun e other _ => (passed e other).1]
    exact answer_upward_eq_none_iff.mp nothing d above
  · obtain ⟨d, nearest, answered⟩ := (answer_upward_eq_iff ended).mp rfl
    have passed := ((nearest_decides_iff straight).mp nearest).2.2
    have upTo : ∀ e : Path, e.Above D → d.parts.length ≤ e.parts.length →
        decides g e = decides f e := fun e other longer =>
      decided e other fun n third further => (passed n third (Nat.lt_of_le_of_lt longer further)).1
    obtain ⟨above, decisive, undecided⟩ := nearest
    refine (answer_upward_eq_iff ended).mpr ⟨d, ⟨above, ?_, fun e other longer => ?_⟩, ?_⟩
    · exact (upTo d above (Nat.le_refl _)).trans decisive
    · simpa only [upTo e other (Nat.le_of_lt longer)] using undecided e other longer
    · exact (answerAt_congr (straight.above above) (sameReach d above)).trans answered

/-- The system follows the same of the paths that a search from `start` in `D` and above asks
about. -/
structure SameReach (f g : Files) (start D : Path) : Prop where
  start : f.Refused start ↔ g.Refused start
  above : ∀ d : Path, d.Above D → (OutOfReach f d ↔ OutOfReach g d)

theorem SameReach.of_short (short : start.Short)
    (shortAbove : ∀ d : Path, d.Above D → (d.child fileName).Short) : SameReach f g start D where
  start := iff_of_false (Files.not_refused_of_short short) (Files.not_refused_of_short short)
  above d above := iff_of_false (Files.not_refused_of_short (shortAbove d above))
    (Files.not_refused_of_short (shortAbove d above))

theorem find_congr (straight : start.Straight)
    (folder : start.folder (w.files.kind? start) = D)
    (sameStart : v.files.kind? start = some .directory ↔ w.files.kind? start = some .directory)
    (sameReach : SameReach v.files w.files start D)
    (same : ∀ d : Path, d.Above D →
      (∀ e : Path, e.Above D → d.parts.length < e.parts.length → ¬ HasFile w.files e) →
        (HasFile v.files d ↔ HasFile w.files d)) :
    find v.host start = find w.host start := by
  by_cases refused : w.files.Refused start
  · rw [find_of_refused straight refused, find_of_refused straight (sameReach.start.mpr refused)]
  · have sameFolder : start.folder (v.files.kind? start) = D := by
      rw [← folder]
      simp only [Path.folder, sameStart]
    rw [find_of_not_refused straight refused,
      find_of_not_refused straight (mt sameReach.start.mp refused), folder, sameFolder]
    have above : D.Above start := folder ▸ start.folder_above _
    exact answer_congr (straight.above above) sameReach.above same

/-! ## The nearest file -/

/-- What the search from `start`, which looks in `D` first, comes to. -/
structure Searches (w : Surroundings) (start D : Path) : Prop where
  /-- It finds the nearest configuration file, if the system follows the paths up to there. -/
  found : ∀ p, find w.host start = .ok (some p) ↔ ¬ w.files.Refused start ∧
    ∃ d : Path, d.NearestTo D (HasFile w.files) ∧ p = d.child fileName ∧
      ∀ e : Path, e.Above D → d.parts.length ≤ e.parts.length → ¬ OutOfReach w.files e
  /-- It finds that there is none, if the system follows all paths. -/
  missing : find w.host start = .ok none ↔ ¬ w.files.Refused start ∧
    ∀ d : Path, d.Above D → ¬ HasFile w.files d ∧ ¬ OutOfReach w.files d
  /-- It ends at the first path that the system does not follow. -/
  refused : ∀ r p, find w.host start = .error (r, p) ↔ r = .nameTooLong ∧
    (w.files.Refused start ∧ p = start ∨ ¬ w.files.Refused start ∧
      ∃ d : Path, d.NearestTo D (OutOfReach w.files) ∧ p = d.child fileName ∧
        ∀ e : Path, e.Above D → d.parts.length < e.parts.length → ¬ HasFile w.files e)
  /-- What else is in the tree does not matter. -/
  frame : ∀ v : Surroundings, SameReach v.files w.files start D →
    (v.files.kind? start = some .directory ↔ w.files.kind? start = some .directory) →
    (∀ d : Path, d.Above D → (HasFile v.files d ↔ HasFile w.files d)) →
    find v.host start = find w.host start
  /-- A configuration file more or less matters only if there is no nearer one. -/
  nearer : ∀ v : Surroundings, SameReach v.files w.files start D →
    (v.files.kind? start = some .directory ↔ w.files.kind? start = some .directory) →
    ∀ changed : Path,
      (∀ d : Path, d.Above D → d ≠ changed → (HasFile v.files d ↔ HasFile w.files d)) →
      find v.host start ≠ find w.host start →
      ∀ d : Path, d.Above D → changed.parts.length < d.parts.length → ¬ HasFile w.files d

/-- The search from a straight path finds the nearest configuration file, or that there is none,
unless the system does not follow a path that it asks about. -/
theorem find_nearest (straight : start.Straight)
    (folder : start.folder (w.files.kind? start) = D) : Searches w start D := by
  have above : D.Above start := folder ▸ start.folder_above _
  have straightD := straight.above above
  refine {
    found := fun p => ?found, missing := ?missing, refused := fun r p => ?refused,
    frame := fun v sameReach sameStart same =>
      find_congr straight folder sameStart sameReach fun d above _ => same d above,
    nearer := ?nearer }
  case found =>
    by_cases refused : w.files.Refused start
    · simp [find_of_refused straight refused, refused]
    · rw [find_of_not_refused straight refused, folder, answer_eq_ok_some_iff straightD,
        and_iff_right refused]
  case missing =>
    by_cases refused : w.files.Refused start
    · simp [find_of_refused straight refused, refused]
    · rw [find_of_not_refused straight refused, folder, answer_eq_ok_none_iff straightD,
        and_iff_right refused]
  case refused =>
    by_cases refused : w.files.Refused start
    · rw [find_of_refused straight refused]
      constructor
      · rintro ⟨⟩
        exact ⟨rfl, .inl ⟨refused, rfl⟩⟩
      · rintro ⟨rfl, ⟨-, rfl⟩ | ⟨followed, -⟩⟩
        · rfl
        · exact absurd refused followed
    · rw [find_of_not_refused straight refused, folder, answer_eq_error_iff straightD]
      simp [refused]
  case nearer =>
    intro v sameReach sameStart changed same differs nearer other further holds
    refine differs (find_congr straight folder sameStart sameReach fun d above none => ?_)
    refine same d above ?_
    rintro rfl
    exact none nearer other further holds

/-- Two directories, with a configuration file in the outer one and a directory of that name in
the inner one; the entries go into the root. -/
def housing (entries : List (String × FileTree)) : Surroundings :=
  ⟨⟨.directory (("home", .directory [(fileName, .file []),
    ("docs", .directory [(fileName, .directory []), ("a", .file [])])]) :: entries), []⟩, .ok [],
    .empty⟩

/-- A file in the inner directory. -/
def inDocs : Path := ⟨.slash, ["home", "docs", "a"]⟩

def docs : Path := ⟨.slash, ["home", "docs"]⟩

theorem find_nearest_home :
    inDocs.Straight ∧ inDocs.folder ((housing []).files.kind? inDocs) = docs ∧
    (∃ d : Path, d.NearestTo docs (HasFile (housing []).files) ∧
      ⟨.slash, ["home", fileName]⟩ = d.child fileName) ∧
    find (housing [(fileName, .file [])]).host inDocs = find (housing []).host inDocs := by
  have straight : inDocs.Straight := ⟨by decide, by decide⟩
  have folder : inDocs.folder ((housing []).files.kind? inDocs) = docs := by rfl
  have searches := find_nearest straight folder
  have short : ∀ d ∈ docs.upward, (d.child fileName).Short := by decide +kernel
  have same : ∀ d ∈ docs.upward, d ≠ ⟨.slash, []⟩ →
      (HasFile (housing [(fileName, .file [])]).files d ↔ HasFile (housing []).files d) := by
    decide +kernel
  have sameReach :
      SameReach (housing [(fileName, .file [])]).files (housing []).files inDocs docs :=
    .of_short (by decide +kernel) fun d above => short d (Path.mem_upward.mpr above)
  refine ⟨straight, folder, ?_, ?_⟩
  · obtain ⟨-, d, nearest, file, -⟩ := (searches.found ⟨.slash, ["home", fileName]⟩).mp (by rfl)
    exact ⟨d, nearest, file⟩
  · by_contra differs
    refine searches.nearer _ sameReach (by rfl) ⟨.slash, []⟩ ?_ differs ⟨.slash, ["home"]⟩ ?_ ?_ ?_
    · exact fun d above => same d (Path.mem_upward.mpr above)
    · decide
    · decide
    · decide +kernel

/-- A name that is longer than an entry's may be. -/
def longName : String := .ofList (List.replicate 256 'n')

theorem hasNull_longName : (⟨.slash, [longName]⟩ : Path).hasNull = false := by
  have chars : longName.toList = List.replicate 256 'n' := String.toList_ofList
  have plain : '\x00' ∉ longName.toList := fun null =>
    absurd (List.eq_of_mem_replicate (chars ▸ null)) (by decide)
  simpa [Path.hasNull] using plain

theorem find_refused_start : ¬ ∀ (w : Surroundings) (start D p : Path), start.Straight →
    start.folder (w.files.kind? start) = D →
      (find w.host start = .ok (some p) ↔
        ∃ d : Path, d.NearestTo D (HasFile w.files) ∧ p = d.child fileName) := by
  intro all
  have straight : (⟨.slash, [longName]⟩ : Path).Straight := ⟨by decide, by decide +kernel⟩
  have folder : Path.folder ⟨.slash, [longName]⟩
      ((housing [(fileName, .file [])]).files.kind? ⟨.slash, [longName]⟩) = ⟨.slash, []⟩ := by
    rw [Files.kind?, hasNull_longName]
    decide +kernel
  have refused : (housing [(fileName, .file [])]).files.Refused ⟨.slash, [longName]⟩ :=
    ⟨hasNull_longName, .inr ⟨[], longName, [], _, rfl, rfl, by decide +kernel⟩⟩
  have nearest : Path.NearestTo ⟨.slash, []⟩ ⟨.slash, []⟩
      (HasFile (housing [(fileName, .file [])]).files) := by
    refine ⟨by decide, by decide +kernel, fun e above longer => ?_⟩
    exact absurd above.2.length_le (Nat.not_le_of_lt longer)
  have found := (all _ _ _ ⟨.slash, [fileName]⟩ straight folder).mpr ⟨_, nearest, rfl⟩
  rw [find_of_refused straight refused] at found
  cases found

end Settings

end ExprLexer
