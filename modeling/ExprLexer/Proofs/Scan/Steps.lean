import ExprLexer.Proofs.Scan.Sharing

/-!
# Sessions event by event

What one event makes of a scanner (`step_scanner`) and of a reader (`step_reader`), and the events
of a run together with the sessions that they meet (`steps`).
-/

namespace ExprLexer.Session

variable {s : Session} {n g : Nat} {e : Event} {r : Reader}

/-! ### Runs -/

/-- The events of a run, each with the session that it meets. -/
def steps (s : Session) : List Event → List (Session × Event)
  | [] => []
  | e :: es => (s, e) :: (s.step e).1.steps es

theorem run_append (s : Session) (front back : List Event) :
    (s.run (front ++ back)).1 = ((s.run front).1.run back).1 := by
  induction front generalizing s with
  | nil => rfl
  | cons e es ih => exact ih (s.step e).1

theorem run_sources (s : Session) (events : List Event) : (s.run events).1.sources = s.sources := by
  induction events generalizing s with
  | nil => rfl
  | cons e es ih => exact (ih (s.step e).1).trans (step_sources s e)

theorem steps_append (s : Session) (front back : List Event) :
    s.steps (front ++ back) = s.steps front ++ (s.run front).1.steps back := by
  induction front generalizing s with
  | nil => rfl
  | cons e es ih =>
    rw [List.cons_append, steps, steps, ih, List.cons_append]
    rfl

theorem delivered_eq (s : Session) (n : Nat) (events : List Event) :
    s.delivered n events = (s.steps events).flatMap fun x => x.1.deliveredBy n x.2 := by
  induction events generalizing s with
  | nil => rfl
  | cons e es ih => rw [delivered, steps, List.flatMap_cons, ih]

theorem finished_iff (s : Session) (n : Nat) (events : List Event) :
    s.Finished n events ↔ ∃ x ∈ s.steps events, x.1.Ends n x.2 := by
  induction events generalizing s with
  | nil => exact ⟨False.elim, nofun⟩
  | cons e es ih =>
    rw [Finished, steps, ih]
    simp only [List.mem_cons, exists_eq_or_imp]

theorem delivered_snoc (s : Session) (n : Nat) (events : List Event) (e : Event) :
    s.delivered n (events ++ [e]) =
      s.delivered n events ++ (s.run events).1.deliveredBy n e := by
  rw [delivered_eq, delivered_eq, steps_append, List.flatMap_append]
  exact congrArg _ (List.append_nil _)

theorem finished_snoc (s : Session) (n : Nat) (events : List Event) (e : Event) :
    s.Finished n (events ++ [e]) ↔ s.Finished n events ∨ (s.run events).1.Ends n e := by
  rw [finished_iff, finished_iff, steps_append]
  simp [steps, or_and_right, exists_or]

/-! ### Readers -/

namespace Event

/-- The reader that the event asks for tokens. -/
def reader? : Event → Option Nat
  | next g | drain g => some g
  | _ => none

theorem reader?_eq_some_iff : e.reader? = some g ↔ e = .next g ∨ e = .drain g := by
  cases e <;> simp [reader?]

end Event

theorem asked_eq (s : Session) (e : Event) :
    s.asked e = e.reader?.bind fun g => s.readers[g]?.map Reader.scanner := by
  cases e <;> rfl

/-- The reader runs to its end: it is drained, or asked for one more token when there is none. -/
def RunsOut (s : Session) (g : Nat) (e : Event) : Prop :=
  ∃ r scanner, s.live? g = some (r, scanner) ∧
    (e = .drain g ∨ e = .next g ∧ (s.step e).2.1 = .none)

theorem ends_iff :
    s.Ends n e ↔ ∃ g, s.RunsOut g e ∧ s.readers[g]?.map Reader.scanner = some n := by
  constructor
  · rintro ⟨g, r, scanner, found, rfl, runs⟩
    exact ⟨g, ⟨r, scanner, found, runs⟩, by rw [(live?_eq_some found).1, Option.map_some]⟩
  · rintro ⟨g, ⟨r, scanner, found, runs⟩, own⟩
    rw [(live?_eq_some found).1, Option.map_some] at own
    exact ⟨g, r, scanner, found, Option.some.inj own, runs⟩

theorem live_of_live? {scanner : Scanner} (found : s.live? g = some (r, scanner)) :
    r.live = true := by
  simp only [live?, bind, Option.bind_eq_some_iff] at found
  obtain ⟨r', -, scanner', -, live⟩ := found
  split at live
  · next alive =>
    obtain ⟨rfl, -⟩ := Prod.mk.inj (Option.some.inj live)
    exact alive
  · cases live

theorem RunsOut.reader? (runs : s.RunsOut g e) : e.reader? = some g := by
  obtain ⟨r, scanner, -, rfl | ⟨rfl, -⟩⟩ := runs
  · rfl
  · rfl

/-- The tokens that the reader gives in the event. -/
def givenBy (s : Session) (g : Nat) (e : Event) : List Token :=
  if e.reader? = some g then (s.step e).2.1.delivered else []

/-- The records that the reader logs in the event. -/
def toldBy (s : Session) (g : Nat) (e : Event) : List LogRecord :=
  if e.reader? = some g then (s.step e).2.2 else []

/-- What an event makes of a reader. -/
inductive Stage (s : Session) (g : Nat) (e : Event) (r : Reader) : Reader → Prop
  | rests (given : s.givenBy g e = []) (told : s.toldBy g e = []) (quiet : ¬ s.RunsOut g e) :
      Stage s g e r r
  | closes (closing : e = .close g) : Stage s g e r { r with live := false }
  | gives {t : Token} (alive : r.live = true) (given : s.givenBy g e = [t])
      (told : s.toldBy g e = []) (quiet : ¬ s.RunsOut g e) :
      Stage s g e r { r with count := r.count + 1 }
  | ends {ts : List Token} {scanner after : Scanner} (alive : r.live = true)
      (given : s.givenBy g e = ts) (there : s.scanners[r.scanner]? = some scanner)
      (moves : scanner.Moves ts after) (done : after.Done)
      (told : s.toldBy g e = [ending r ts.length after]) (runs : s.RunsOut g e) :
      Stage s g e r { r with count := r.count + ts.length, live := false }

theorem quiet_of_other (other : e.reader? ≠ some g) :
    s.givenBy g e = [] ∧ s.toldBy g e = [] ∧ ¬ s.RunsOut g e :=
  ⟨if_neg other, if_neg other, fun runs => other runs.reader?⟩

theorem quiet_of_dead (dead : s.live? g = none) (e : Event) :
    s.givenBy g e = [] ∧ s.toldBy g e = [] ∧ ¬ s.RunsOut g e := by
  by_cases own : e.reader? = some g
  · have step_ : (s.step e).2.1.delivered = [] ∧ (s.step e).2.2 = [] := by
      cases e with
      | next h =>
        obtain rfl := Option.some.inj own
        simp [step, dead, Answer.delivered]
      | drain h =>
        obtain rfl := Option.some.inj own
        simp [step, dead, Answer.delivered]
      | _ => cases own
    refine ⟨(if_pos own).trans step_.1, (if_pos own).trans step_.2, ?_⟩
    rintro ⟨r, scanner, found, -⟩
    rw [dead] at found
    cases found
  · exact quiet_of_other own

theorem readers_put (reader : s.readers[g]? = some r) (count : Nat) (live : Bool)
    (scanner : Scanner) :
    (s.put g r count live scanner).readers[g]? =
      some { r with count := r.count + count, live := live } := by
  obtain ⟨inside, -⟩ := List.getElem?_eq_some_iff.mp reader
  exact List.getElem?_set_self inside

theorem readers_step_of_other (reader : s.readers[g]? = some r) (other : e.reader? ≠ some g)
    (open_ : e ≠ .close g) : (s.step e).1.readers[g]? = some r := by
  have elsewhere : ∀ {h : Nat} (r' : Reader), h ≠ g → (s.readers.set h r')[g]? = some r := by
    intro h r' different
    rw [List.getElem?_set_ne different, reader]
  obtain ⟨inside, -⟩ := List.getElem?_eq_some_iff.mp reader
  cases e with
  | share m => exact (List.getElem?_append_left inside).trans reader
  | iterate m => exact (List.getElem?_append_left inside).trans reader
  | diagnostics m => exact reader
  | close h =>
    simp only [step]
    split
    · exact reader
    · exact elsewhere _ fun same => open_ (congrArg _ same)
  | next h =>
    have different : h ≠ g := fun same => other (congrArg some same)
    simp only [step]
    split
    · exact reader
    · split
      · exact elsewhere _ different
      · exact elsewhere _ different
  | drain h =>
    simp only [step]
    split
    · exact reader
    · exact elsewhere _ fun same => other (congrArg some same)

theorem stage_ends {scanner after : Scanner} {ts : List Token} {answer : Answer}
    (found : s.live? g = some (r, scanner)) (own : e.reader? = some g)
    (moves : scanner.Moves ts after) (done : after.Done) (runs : s.RunsOut g e)
    (step_ : s.step e = (s.put g r ts.length false after, answer, [ending r ts.length after]))
    (given : answer.delivered = ts) :
    ∃ r', (s.step e).1.readers[g]? = some r' ∧ s.Stage g e r r' := by
  obtain ⟨reader, there⟩ := live?_eq_some found
  refine ⟨_, ?_, .ends (live_of_live? found) ?_ there moves done ?_ runs⟩
  · rw [step_]
    exact readers_put reader ts.length false after
  · rw [givenBy, if_pos own, step_]
    exact given
  · rw [toldBy, if_pos own, step_]

/-- An event may close a reader, have it give a token, or run it to its end. -/
theorem step_reader (reader : s.readers[g]? = some r) (e : Event) :
    ∃ r', (s.step e).1.readers[g]? = some r' ∧ s.Stage g e r r' := by
  by_cases own : e.reader? = some g
  · cases found : s.live? g with
    | none =>
      obtain ⟨given, told, quiet⟩ := quiet_of_dead found e
      obtain ⟨same, -⟩ := idle_of_dead (Event.reader?_eq_some_iff.mp own) found 0
      exact ⟨r, by rw [same]; exact reader, .rests given told quiet⟩
    | some pair =>
      obtain ⟨r', scanner⟩ := pair
      obtain ⟨reader', -⟩ := live?_eq_some found
      obtain rfl := Option.some.inj (reader'.symm.trans reader)
      have alive := live_of_live? found
      rcases Event.reader?_eq_some_iff.mp own with rfl | rfl
      · rcases read : scanner.next with ⟨t, after⟩
        obtain ⟨moves, done⟩ := Scanner.next_moves read
        cases t with
        | some t =>
          have step_ := step_next_some found read
          have kept := readers_put reader 1 true after
          refine ⟨_, ?_, .gives (t := t) alive ?_ ?_ ?_⟩
          · rw [step_, kept, alive]
          · rw [givenBy, if_pos own, step_]
            rfl
          · rw [toldBy, if_pos own, step_]
          · rintro ⟨-, -, -, h | ⟨-, none_⟩⟩
            · cases h
            · rw [step_] at none_
              cases none_
        | none =>
          have step_ := step_next_none found read
          have answer : (s.step (.next g)).2.1 = .none := congrArg (·.2.1) step_
          exact stage_ends found own moves (done rfl) ⟨r', scanner, found, .inr ⟨rfl, answer⟩⟩
            step_ rfl
      · obtain ⟨moves, done⟩ := scanner.drain_moves
        exact stage_ends found own moves done ⟨r', scanner, found, .inl rfl⟩ (step_drain found) rfl
  · by_cases closing : e = .close g
    · subst closing
      refine ⟨_, ?_, .closes rfl⟩
      obtain ⟨inside, -⟩ := List.getElem?_eq_some_iff.mp reader
      simp only [step, reader]
      exact List.getElem?_set_self inside
    · obtain ⟨given, told, quiet⟩ := quiet_of_other own
      exact ⟨r, readers_step_of_other reader own closing, .rests given told quiet⟩

/-! ### Scanners -/

/-- What an event makes of a scanner. -/
inductive ScannerStage (s : Session) (n : Nat) (e : Event) (scanner : Scanner) : Scanner → Prop
  | rests (quiet : s.deliveredBy n e = []) : ScannerStage s n e scanner scanner
  | gives {t : Token} {found : List Diagnostic} {after : Cursor}
      (turn : scanner.cursor.turn = .token t found after) (given : s.deliveredBy n e = [t]) :
      ScannerStage s n e scanner ⟨after, scanner.found ++ found⟩
  | ends {after : Scanner} (runs : s.Ends n e) : ScannerStage s n e scanner after

theorem scanners_step_of_other {scanner : Scanner} (there : s.scanners[n]? = some scanner)
    (other : s.asked e ≠ some n) : (s.step e).1.scanners[n]? = some scanner := by
  have elsewhere : ∀ {g : Nat} {pair : Reader × Scanner} (after : Scanner),
      s.live? g = some pair → s.readers[g]?.map Reader.scanner ≠ some n →
      (s.scanners.set pair.1.scanner after)[n]? = some scanner := by
    intro g pair after found different
    rw [(live?_eq_some found).1, Option.map_some] at different
    rw [List.getElem?_set_ne fun same => different (congrArg some same), there]
  cases e with
  | share m => exact there
  | diagnostics m => exact there
  | iterate m =>
    obtain ⟨inside, -⟩ := List.getElem?_eq_some_iff.mp there
    exact (List.getElem?_append_left inside).trans there
  | close g =>
    simp only [step]
    split <;> exact there
  | next g =>
    simp only [step]
    split
    · exact there
    · next found =>
      split
      · exact elsewhere _ found other
      · exact elsewhere _ found other
  | drain g =>
    simp only [step]
    split
    · exact there
    · next found => exact elsewhere _ found other

/-- An event that asks a scanner for tokens goes to a live reader of it, or changes nothing. -/
theorem idle_or_live {scanner : Scanner} (there : s.scanners[n]? = some scanner)
    (asked_ : s.asked e = some n) :
    ((s.step e).1 = s ∧ s.deliveredBy n e = []) ∨
      ∃ g r, s.live? g = some (r, scanner) ∧ r.scanner = n ∧ (e = .next g ∨ e = .drain g) := by
  rw [asked_eq] at asked_
  obtain ⟨g, own, reader⟩ := Option.bind_eq_some_iff.mp asked_
  have asks := Event.reader?_eq_some_iff.mp own
  cases found : s.live? g with
  | none =>
    obtain ⟨same, quiet, -⟩ := idle_of_dead asks found n
    exact .inl ⟨same, quiet⟩
  | some pair =>
    obtain ⟨r, scanner'⟩ := pair
    obtain ⟨reader', there'⟩ := live?_eq_some found
    rw [reader', Option.map_some] at reader
    obtain rfl := Option.some.inj reader
    obtain rfl := Option.some.inj (there'.symm.trans there)
    exact .inr ⟨g, r, found, rfl, asks⟩

/-- An event that runs no reader of a scanner to its end has it give one token at most. -/
theorem step_scanner {scanner : Scanner} (there : s.scanners[n]? = some scanner) (e : Event) :
    ∃ after, (s.step e).1.scanners[n]? = some after ∧ s.ScannerStage n e scanner after := by
  by_cases asked_ : s.asked e = some n
  · obtain ⟨after, kept, -, -⟩ := step_moves e there
    by_cases ends : s.Ends n e
    · exact ⟨after, kept, .ends ends⟩
    · rcases idle_or_live there asked_ with ⟨same, quiet⟩ | ⟨g, r, found, rfl, rfl | rfl⟩
      · exact ⟨scanner, by rw [same]; exact there, .rests quiet⟩
      · cases turn : scanner.cursor.turn with
        | token t more moved =>
          have read : scanner.next = (some t, ⟨moved, scanner.found ++ more⟩) := by
            simp only [Scanner.next, turn]
          have step_ := step_next_some found read
          obtain ⟨inside, -⟩ := List.getElem?_eq_some_iff.mp there
          refine ⟨_, ?_, .gives turn ?_⟩
          · rw [step_]
            exact List.getElem?_set_self inside
          · rw [deliveredBy, asked_, if_pos rfl, step_]
            rfl
        | finish more moved =>
          have read : scanner.next = (none, ⟨moved, scanner.found ++ more⟩) := by
            simp only [Scanner.next, turn]
          have answer : (s.step (.next g)).2.1 = .none :=
            congrArg (·.2.1) (step_next_none found read)
          exact absurd ⟨g, r, scanner, found, rfl, .inr ⟨rfl, answer⟩⟩ ends
      · exact absurd ⟨g, r, scanner, found, rfl, .inl rfl⟩ ends
  · exact ⟨scanner, scanners_step_of_other there asked_, .rests (if_neg asked_)⟩

/-! ### Origins -/

variable {sources : List String} {events : List Event} {source : String}

theorem length_run_scanners (s : Session) (events : List Event) :
    (s.run events).1.scanners.length =
      s.scanners.length + (events.filterMap (created s.sources)).length := by
  induction events generalizing s with
  | nil => rfl
  | cons e es ih =>
    have rest := ih (s.step e).1
    rw [step_sources] at rest
    refine rest.trans ?_
    cases made : created s.sources e with
    | none => rw [length_step_scanners made, List.filterMap_cons_none made]
    | some first =>
      cases e with
      | iterate m =>
        have length : (s.step (.iterate m)).1.scanners.length = s.scanners.length + 1 :=
          List.length_append
        rw [List.filterMap_cons_some made, length, List.length_cons]
        omega
      | _ => cases made

theorem length_scanners (sources : List String) (events : List Event) :
    ((start sources).run events).1.scanners.length = (origins sources events).length := by
  have first : (start sources).scanners.length = sources.length := List.length_map _
  rw [length_run_scanners, first, origins, List.length_append]
  rfl

theorem exists_origin {scanner : Scanner}
    (there : ((start sources).run events).1.scanners[n]? = some scanner) :
    ∃ source, (origins sources events)[n]? = some source := by
  obtain ⟨inside, -⟩ := List.getElem?_eq_some_iff.mp there
  rw [length_scanners] at inside
  exact ⟨_, List.getElem?_eq_getElem inside⟩

theorem origins_append (origin : (origins sources events)[n]? = some source)
    (more : List Event) : (origins sources (events ++ more))[n]? = some source := by
  obtain ⟨inside, -⟩ := List.getElem?_eq_some_iff.mp origin
  rw [origins, List.filterMap_append, ← List.append_assoc, ← origins,
    List.getElem?_append_left inside, origin]

theorem origins_concat (events : List Event) (made : created sources e = some source) :
    (origins sources (events ++ [e]))[(origins sources events).length]? = some source := by
  rw [origins, List.filterMap_append, ← List.append_assoc, ← origins,
    List.getElem?_append_right (Nat.le_refl _), Nat.sub_self, List.filterMap_cons_some made]
  rfl

end ExprLexer.Session
