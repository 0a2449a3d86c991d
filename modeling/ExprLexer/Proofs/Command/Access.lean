import ExprLexer.Command.Run

/-!
# Accesses of a run

What a run asks of its surroundings, in order. A recording host gives the same answers and keeps a
log (`run_records`), so that the accesses of a program are those of its parts, one after another.
-/

namespace ExprLexer

inductive Access where
  | read (path : Path)
  | kindAt (path : Path)
  | input
  | workingDirectory
  deriving DecidableEq, Repr

def Surroundings.recorded (w : Surroundings) : Host (StateM (List Access)) where
  read p := do modify (· ++ [.read p]); return w.files.read p
  kindAt p := do modify (· ++ [.kindAt p]); return w.files.kindAt p
  input := do modify (· ++ [.input]); return w.input
  workingDirectory := do modify (· ++ [.workingDirectory]); return w.files.workingDirectory
  codecs := w.codecs

/-- The program gives the answer and adds the accesses to the log. -/
def Records (program : StateM (List Access) α) (answer : Id α) (accesses : List Access) : Prop :=
  ∀ log, program.run log = (answer, log ++ accesses)

/-- The program gives the answer, and every access of it has the property. -/
def RecordsOnly (P : Access → Prop) (program : StateM (List Access) α) (answer : Id α) : Prop :=
  ∃ accesses, (∀ a ∈ accesses, P a) ∧ Records program answer accesses

variable {P Q : Access → Prop} {x : StateM (List Access) α} {f : α → StateM (List Access) β}
  {a : Id α} {g : α → Id β} {first later : List Access} {w : Surroundings}

namespace Records

theorem pure (a : α) : Records (Pure.pure a) a [] := by
  intro log
  rw [List.append_nil]
  rfl

theorem bind (head : Records x a first) (tail : Records (f a) (g a) later) :
    Records (x >>= f) (a >>= g) (first ++ later) := by
  intro log
  have step : (x >>= f).run log = (f (x.run log).1).run (x.run log).2 := rfl
  rw [step, head log, tail, List.append_assoc]
  rfl

/-- The rest of the program asks for nothing. -/
theorem bind_quiet (head : Records x a first) (tail : Records (f a) (g a) []) :
    Records (x >>= f) (a >>= g) first := by
  have whole := head.bind tail
  rwa [List.append_nil] at whole

end Records

namespace RecordsOnly

theorem pure (a : α) : RecordsOnly P (Pure.pure a) a := ⟨[], nofun, .pure a⟩

theorem one {access : Access} (head : Records x a [access]) (holds : P access) :
    RecordsOnly P x a := ⟨[access], List.forall_mem_singleton.mpr holds, head⟩

theorem bind (head : RecordsOnly P x a) (tail : RecordsOnly P (f a) (g a)) :
    RecordsOnly P (x >>= f) (a >>= g) := by
  obtain ⟨first, before, head⟩ := head
  obtain ⟨later, behind, tail⟩ := tail
  exact ⟨first ++ later, List.forall_mem_append.mpr ⟨before, behind⟩, head.bind tail⟩

theorem mono (only : RecordsOnly P x a) (weaker : ∀ a, P a → Q a) : RecordsOnly Q x a := by
  obtain ⟨accesses, holds, records⟩ := only
  exact ⟨accesses, fun a member => weaker a (holds a member), records⟩

end RecordsOnly

theorem read_records (p : Path) : Records (w.recorded.read p) (w.host.read p) [.read p] :=
  fun _ => rfl

theorem kindAt_records (p : Path) : Records (w.recorded.kindAt p) (w.host.kindAt p) [.kindAt p] :=
  fun _ => rfl

theorem input_records : Records w.recorded.input w.host.input [.input] := fun _ => rfl

theorem workingDirectory_records :
    Records w.recorded.workingDirectory w.host.workingDirectory [.workingDirectory] := fun _ => rfl

/-! ### Settings -/

/-- Looking at what stands at a path, as the search for the configuration file does. -/
def Access.IsLook (a : Access) : Prop := a = .workingDirectory ∨ ∃ p, a = .kindAt p

theorem Settings.findIn_records (ds : List Path) :
    RecordsOnly Access.IsLook (findIn w.recorded ds) (findIn w.host ds) := by
  induction ds with
  | nil => exact .pure _
  | cons d ds ih =>
    unfold findIn
    refine .bind (.one (kindAt_records _) (.inr ⟨_, rfl⟩)) ?_
    rcases w.host.kindAt (d.child fileName) with r | _ | _ | _
    · exact .pure _
    · exact ih
    · exact .pure _
    · exact ih

theorem Settings.find_records (start : Path) :
    RecordsOnly Access.IsLook (find w.recorded start) (find w.host start) := by
  unfold find
  refine .bind (.one (kindAt_records _) (.inr ⟨_, rfl⟩)) ?_
  rcases w.host.kindAt start with r | kind
  · exact .pure _
  · exact findIn_records _

theorem Settings.load_records (p : Path) :
    RecordsOnly (· = .read p) (load w.recorded p) (load w.host p) :=
  .bind (.one (read_records p) rfl) (.pure _)

namespace Command

variable {o : ScanOptions} {verbose : Bool}

theorem configPath_records :
    RecordsOnly Access.IsLook (configPath w.recorded o) (configPath w.host o) := by
  unfold configPath
  cases o.config with
  | some p => exact .pure _
  | none =>
    exact .bind (.one workingDirectory_records (.inl rfl))
      (.bind (Settings.find_records _) (.pure _))

/-- The accesses that settings may need: looks, and reading the configuration file. -/
def ForSettings (w : Surroundings) (o : ScanOptions) (a : Access) : Prop :=
  a.IsLook ∨ ∃ p, a = .read p ∧ configPath w.host o = .ok (some p)

theorem resolve_records :
    RecordsOnly (ForSettings w o) (resolve w.recorded o) (resolve w.host o) := by
  unfold resolve
  refine .bind (configPath_records.mono fun a => .inl) ?_
  cases found : configPath w.host o with
  | error e => exact .pure _
  | ok path =>
    cases path with
    | none => exact .pure _
    | some p =>
      refine .bind ((Settings.load_records p).mono fun a reads => .inr ⟨p, reads, found⟩) ?_
      cases Settings.load w.host p with
      | error e => exact .pure _
      | ok loaded => exact .pure _

/-! ### Runs -/

/-- The access by which a source is read. -/
def sourceAccess (name : String) : Access :=
  if name = Source.inputName then .input else .read (Path.ofString name)

theorem read_source_records (name : String) (encoding : Text.Points) :
    Records (Source.read w.recorded name encoding) (Source.read w.host name encoding)
      [sourceAccess name] := by
  unfold Source.read sourceAccess
  split
  · refine input_records.bind_quiet ?_
    cases w.host.input with
    | error r => exact .pure _
    | ok bytes => exact .pure _
  · refine (read_records _).bind_quiet ?_
    cases w.host.read (Path.ofString name) with
    | error e => exact .pure _
    | ok bytes => exact .pure _

section

variable {log : List LogRecord} {accesses : List Access}
  (settings : Records (resolve w.recorded o) (resolve w.host o) accesses)
include settings

/-- Where the settings fail, nothing is asked for but what they need. -/
theorem runScan_records_error {e : Problem ConfigError}
    (failed : resolve w.host o = (log, .error e)) :
    Records (runScan w.recorded verbose o) (runScan w.host verbose o) accesses := by
  unfold runScan
  refine settings.bind_quiet ?_
  rw [failed]
  exact .pure _

theorem runScan_records_ok {s : Settings} (resolved : resolve w.host o = (log, .ok s)) :
    Records (runScan w.recorded verbose o) (runScan w.host verbose o)
      (accesses ++ [sourceAccess o.file]) := by
  unfold runScan
  refine settings.bind ?_
  rw [resolved]
  refine (read_source_records o.file s.encoding).bind_quiet ?_
  cases Source.read w.host o.file s.encoding with
  | error e => exact .pure _
  | ok source => exact .pure _

end

/-- A recorded run ends as the run itself does. -/
theorem run_records (w : Surroundings) (arguments : List String) :
    ∃ accesses, Records (run w.recorded arguments) (run w.host arguments) accesses := by
  unfold run Request.run
  cases Request.ofArguments arguments with
  | help page => exact ⟨[], .pure _⟩
  | refuse page e => exact ⟨[], .pure _⟩
  | kinds => exact ⟨[], .pure _⟩
  | scan verbose o =>
    obtain ⟨accesses, -, settings⟩ := resolve_records (w := w) (o := o)
    rcases resolved : resolve w.host o with ⟨log, e | s⟩
    · exact ⟨_, runScan_records_error settings resolved⟩
    · exact ⟨_, runScan_records_ok settings resolved⟩

end Command

end ExprLexer
