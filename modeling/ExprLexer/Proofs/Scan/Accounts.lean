import Mathlib.Algebra.BigOperators.Group.Finset.Piecewise
import Mathlib.Algebra.GroupWithZero.Nat
import ExprLexer.Proofs.Scan.Progress

/-!
# Accounts of readers

A reader logs one record, when it runs to its end, and tells in it how many tokens it has given and
how many diagnostics its source has (`account`). The counts that the readers of one scanner log add
up to the tokens of its source, unless one of them stops before its end (`counted_logged_eq`).
-/

namespace ExprLexer

/-- The number of tokens that a record tells of. -/
def LogRecord.count : LogRecord → Nat
  | scanned tokens _ => tokens
  | _ => 0

namespace Session

/-- The tokens that the reader gives in a run of events. -/
def given (s : Session) (g : Nat) (events : List Event) : List Token :=
  (s.steps events).flatMap fun x => x.1.givenBy g x.2

/-- The records that the reader logs in a run of events. -/
def told (s : Session) (g : Nat) (events : List Event) : List LogRecord :=
  (s.steps events).flatMap fun x => x.1.toldBy g x.2

def RanOut (s : Session) (g : Nat) (events : List Event) : Prop :=
  ∃ x ∈ s.steps events, x.1.RunsOut g x.2

/-- The records that all readers of the scanner `n` log in a run of events. -/
def logged (s : Session) (n : Nat) (events : List Event) : List LogRecord :=
  (s.steps events).flatMap fun x => if x.1.asked x.2 = some n then (x.1.step x.2).2.2 else []

variable {s : Session} {g n : Nat} {r : Reader} {e : Event} {events : List Event}
  {sources : List String} {source : String}

theorem given_append (s : Session) (g : Nat) (front back : List Event) :
    s.given g (front ++ back) = s.given g front ++ (s.run front).1.given g back := by
  rw [given, steps_append, List.flatMap_append]
  rfl

theorem told_append (s : Session) (g : Nat) (front back : List Event) :
    s.told g (front ++ back) = s.told g front ++ (s.run front).1.told g back := by
  rw [told, steps_append, List.flatMap_append]
  rfl

theorem ranOut_append (s : Session) (g : Nat) (front back : List Event) :
    s.RanOut g (front ++ back) ↔ s.RanOut g front ∨ (s.run front).1.RanOut g back := by
  rw [RanOut, steps_append]
  simp only [List.mem_append, or_and_right, exists_or]
  rfl

theorem given_singleton (s : Session) (g : Nat) (e : Event) : s.given g [e] = s.givenBy g e :=
  List.append_nil _

theorem told_singleton (s : Session) (g : Nat) (e : Event) : s.told g [e] = s.toldBy g e :=
  List.append_nil _

theorem ranOut_singleton (s : Session) (g : Nat) (e : Event) :
    s.RanOut g [e] ↔ s.RunsOut g e := by
  simp [RanOut, steps]

theorem ranOut_cons (s : Session) (g : Nat) (e : Event) (es : List Event) :
    s.RanOut g (e :: es) ↔ s.RunsOut g e ∨ (s.step e).1.RanOut g es := by
  simp [RanOut, steps]

/-! ### One reader -/

theorem live?_of_missing (missing : s.readers[g]? = none) : s.live? g = none := by
  simp [live?, missing]

theorem live?_of_closed (reader : s.readers[g]? = some r) (closed : r.live = false) :
    s.live? g = none := by
  cases found : s.live? g with
  | none => rfl
  | some pair =>
    have alive := live_of_live? found
    rw [← Option.some.inj ((live?_eq_some found).1.symm.trans reader)] at closed
    rw [closed] at alive
    cases alive

/-- Before a reader is there, it gives and logs nothing. -/
theorem nothing_of_missing (missing : (s.run events).1.readers[g]? = none) :
    s.given g events = [] ∧ s.told g events = [] ∧ ¬ s.RanOut g events := by
  induction events using List.reverseRecOn with
  | nil => exact ⟨rfl, rfl, nofun⟩
  | append_singleton es e ih =>
    rw [run_append] at missing
    cases reader : (s.run es).1.readers[g]? with
    | some r =>
      obtain ⟨r', kept, -⟩ := step_reader reader e
      cases kept.symm.trans missing
    | none =>
      obtain ⟨given_, told_, quiet_⟩ := ih reader
      obtain ⟨given', told', quiet'⟩ := quiet_of_dead (live?_of_missing reader) e
      rw [given_append, told_append, ranOut_append, given_singleton, told_singleton,
        ranOut_singleton, given_, told_, given', told']
      exact ⟨rfl, rfl, not_or.mpr ⟨quiet_, quiet'⟩⟩

/-- A closed reader stays so, and does not run to its end any more. -/
theorem not_ranOut_of_closed (reader : s.readers[g]? = some r) (closed : r.live = false) :
    ¬ s.RanOut g events := by
  induction events generalizing s r with
  | nil => nofun
  | cons e es ih =>
    rw [ranOut_cons, not_or]
    refine ⟨(quiet_of_dead (live?_of_closed reader closed) e).2.2, ?_⟩
    obtain ⟨r', kept, stage⟩ := step_reader reader e
    cases stage with
    | rests => exact ih kept closed
    | closes => exact ih kept rfl
    | gives alive => cases closed.symm.trans alive
    | ends alive => cases closed.symm.trans alive

theorem new_reader (missing : s.readers[g]? = none)
    (there : (s.step e).1.readers[g]? = some r) : r.count = 0 ∧ r.live = true := by
  have beyond := List.getElem?_eq_none_iff.mp missing
  have opened : ∀ m, (s.readers ++ [⟨m, 0, true⟩])[g]? = some r → r.count = 0 ∧ r.live = true := by
    intro m last
    rw [List.getElem?_append_right beyond] at last
    obtain rfl := List.mem_singleton.mp (List.mem_of_getElem? last)
    exact ⟨rfl, rfl⟩
  have kept : (s.step e).1.readers.length = s.readers.length → r.count = 0 ∧ r.live = true := by
    intro length
    rw [← length] at beyond
    rw [List.getElem?_eq_none beyond] at there
    cases there
  cases e with
  | share m => exact opened m there
  | iterate m => exact opened s.scanners.length there
  | _ =>
    apply kept
    simp only [step, put]
    repeat' split
    all_goals simp only [List.length_set]

/-- What a reader has counted and logged in a run of events. -/
structure Account (sources : List String) (events : List Event) (g : Nat) (r : Reader) : Prop where
  count : r.count = ((start sources).given g events).length
  running : r.live = true → ¬ (start sources).RanOut g events
  quiet : ¬ (start sources).RanOut g events → (start sources).told g events = []
  ended : (start sources).RanOut g events →
    ∃ source, (origins sources events)[r.scanner]? = some source ∧
      (start sources).told g events = [.scanned r.count (scan source).2.length]

/-- The account goes on as long as the reader does not run to its end. -/
theorem Account.go_on {es : List Event} {r' : Reader} {ts : List Token}
    (account : Account sources es g r)
    (given_ : ((start sources).run es).1.givenBy g e = ts)
    (told_ : ((start sources).run es).1.toldBy g e = [])
    (quiet_ : ¬ ((start sources).run es).1.RunsOut g e) (same : r'.scanner = r.scanner)
    (count_ : r'.count = r.count + ts.length) (live : r'.live = true → r.live = true)
    (still : ts = [] ∨ r.live = true) : Account sources (es ++ [e]) g r' := by
  have tells : (start sources).told g (es ++ [e]) = (start sources).told g es := by
    rw [told_append, told_singleton, told_, List.append_nil]
  have ran : (start sources).RanOut g (es ++ [e]) ↔ (start sources).RanOut g es := by
    rw [ranOut_append, ranOut_singleton]
    exact or_iff_left quiet_
  refine ⟨?_, fun alive => ?_, fun quiet => ?_, fun ended => ?_⟩
  · rw [given_append, given_singleton, given_, List.length_append, count_, account.count]
  · rw [ran]
    exact account.running (live alive)
  · rw [ran] at quiet
    rw [tells, account.quiet quiet]
  · rw [ran] at ended
    obtain ⟨source, origin, record⟩ := account.ended ended
    have rests : r'.count = r.count := by
      rcases still with nothing | alive
      · rw [count_, nothing]
        rfl
      · exact absurd ended (account.running alive)
    exact ⟨source, by rw [same]; exact origins_append origin [e], by rw [tells, rests, record]⟩

/-- A reader that runs to its end logs what it has given, and all diagnostics of its source. -/
theorem Account.finish {es : List Event} {ts : List Token} {scanner after : Scanner}
    (account : Account sources es g r) (alive : r.live = true)
    (given_ : ((start sources).run es).1.givenBy g e = ts)
    (there : ((start sources).run es).1.scanners[r.scanner]? = some scanner)
    (moves : scanner.Moves ts after) (done : after.Done)
    (told_ : ((start sources).run es).1.toldBy g e = [ending r ts.length after])
    (runs : ((start sources).run es).1.RunsOut g e) :
    Account sources (es ++ [e]) g { r with count := r.count + ts.length, live := false } := by
  have ran : (start sources).RanOut g (es ++ [e]) := by
    rw [ranOut_append, ranOut_singleton]
    exact .inr runs
  refine ⟨?_, nofun, fun quiet => absurd ran quiet, fun _ => ?_⟩
  · rw [given_append, given_singleton, given_, List.length_append, ← account.count]
  · obtain ⟨source, origin⟩ := exists_origin there
    obtain ⟨scanner', there', works, -⟩ := exists_scanner origin
    obtain rfl := Option.some.inj (there'.symm.trans there)
    have found : after.found = (scan source).2 := by
      have total : after.total = (scan source).2 := moves.total.trans works.total
      rwa [Scanner.total, Scanner.run_of_done done, List.append_nil] at total
    refine ⟨source, origins_append origin [e], ?_⟩
    rw [told_append, told_singleton, account.quiet (account.running alive), told_, List.nil_append,
      ending, found]

theorem account (reader : ((start sources).run events).1.readers[g]? = some r) :
    Account sources events g r := by
  induction events using List.reverseRecOn generalizing r with
  | nil => cases reader
  | append_singleton es e ih =>
    rw [run_append] at reader
    cases before : ((start sources).run es).1.readers[g]? with
    | none =>
      -- The event opens the reader, and asks nothing of it yet.
      obtain ⟨given_, told_, quiet_⟩ := nothing_of_missing before
      obtain ⟨given', told', quiet'⟩ := quiet_of_dead (live?_of_missing before) e
      obtain ⟨count, live⟩ := new_reader before reader
      have never : ¬ (start sources).RanOut g (es ++ [e]) := by
        rw [ranOut_append, ranOut_singleton]
        exact not_or.mpr ⟨quiet_, quiet'⟩
      refine ⟨?_, fun _ => never, fun _ => ?_, fun ended => absurd ended never⟩
      · rw [given_append, given_singleton, given_, given', count]
        rfl
      · rw [told_append, told_singleton, told_, told']
        rfl
    | some old =>
      obtain ⟨r', kept, stage⟩ := step_reader before e
      obtain rfl := Option.some.inj (kept.symm.trans reader)
      have so_far := ih before
      cases stage with
      | rests given_ told_ quiet_ =>
        exact so_far.go_on given_ told_ quiet_ rfl rfl id (.inl rfl)
      | closes closing =>
        obtain ⟨given_, told_, quiet_⟩ :=
          quiet_of_other (s := ((start sources).run es).1) (g := g) (e := e)
            (by rw [closing]; nofun)
        exact so_far.go_on given_ told_ quiet_ rfl rfl nofun (.inl rfl)
      | gives alive given_ told_ quiet_ =>
        exact so_far.go_on given_ told_ quiet_ rfl rfl id (.inr alive)
      | ends alive given_ there moves done told_ runs =>
        exact so_far.finish alive given_ there moves done told_ runs

/-! ### All readers of a scanner -/

/-- A reader stays with its scanner. -/
theorem scanner_of_step {m : Nat} (reader : s.readers[g]?.map Reader.scanner = some m) (e : Event) :
    (s.step e).1.readers[g]?.map Reader.scanner = some m := by
  obtain ⟨r, there, rfl⟩ := Option.map_eq_some_iff.mp reader
  obtain ⟨r', kept, stage⟩ := step_reader there e
  rw [kept]
  cases stage <;> rfl

theorem scanner_of_run {m : Nat} (reader : s.readers[g]?.map Reader.scanner = some m)
    (events : List Event) : (s.run events).1.readers[g]?.map Reader.scanner = some m := by
  induction events generalizing s with
  | nil => exact reader
  | cons e es ih => exact ih (scanner_of_step reader e)

/-- The readers of a scanner, by their numbers. -/
def readersOf (s : Session) (n : Nat) : Finset Nat :=
  (Finset.range s.readers.length).filter fun g => s.readers[g]?.map Reader.scanner = some n

theorem mem_readersOf : g ∈ s.readersOf n ↔ s.readers[g]?.map Reader.scanner = some n := by
  rw [readersOf, Finset.mem_filter, Finset.mem_range, and_iff_right_iff_imp]
  intro reader
  obtain ⟨r, there, -⟩ := Option.map_eq_some_iff.mp reader
  exact (List.getElem?_eq_some_iff.mp there).1

/-- What is asked of a scanner in a run is asked of its readers, each for its own part. -/
theorem sum_asked {weight : Session → Event → Nat}
    (idle : ∀ s e g, e.reader? = some g → s.readers[g]? = none → weight s e = 0)
    (s : Session) (n : Nat) (events : List Event) :
    ((s.steps events).map fun x => if x.1.asked x.2 = some n then weight x.1 x.2 else 0).sum =
      ∑ g ∈ (s.run events).1.readersOf n,
        ((s.steps events).map fun x => if x.2.reader? = some g then weight x.1 x.2 else 0).sum := by
  -- The readers are those at the end of the run, and stay so while events are taken off its front.
  generalize owners : (s.run events).1.readersOf n = G
  have own : ∀ g, g ∈ G ↔ (s.run events).1.readers[g]?.map Reader.scanner = some n := by
    intro g
    rw [← owners, mem_readersOf]
  clear owners
  induction events generalizing s with
  | nil => simp [steps]
  | cons e es ih =>
    simp only [steps, List.map_cons, List.sum_cons, Finset.sum_add_distrib]
    rw [ih (s.step e).1 own]
    congr 1
    cases asks : e.reader? with
    | none => simp [asked_eq, asks]
    | some g =>
      simp only [Option.some.injEq, Finset.sum_ite_eq]
      cases reader : s.readers[g]? with
      | none => rw [idle s e g asks reader, ite_self, ite_self]
      | some r =>
        have here : s.readers[g]?.map Reader.scanner = some r.scanner := by
          rw [reader, Option.map_some]
        have last := scanner_of_run here (e :: es)
        have same : some r.scanner = some n ↔ g ∈ G := by rw [own g, last]
        rw [asked_eq, asks, Option.bind_some, here]
        exact if_congr same rfl rfl

theorem quiet_of_missing (asks : e.reader? = some g) (missing : s.readers[g]? = none) :
    (s.step e).2.1.delivered = [] ∧ (s.step e).2.2 = [] := by
  obtain ⟨given_, told_, -⟩ := quiet_of_dead (live?_of_missing missing) e
  rw [givenBy, if_pos asks] at given_
  rw [toldBy, if_pos asks] at told_
  exact ⟨given_, told_⟩

theorem length_delivered (s : Session) (n : Nat) (events : List Event) :
    (s.delivered n events).length =
      ∑ g ∈ (s.run events).1.readersOf n, (s.given g events).length := by
  have idle : ∀ (s : Session) (e : Event) (g : Nat), e.reader? = some g → s.readers[g]? = none →
      (s.step e).2.1.delivered.length = 0 := by
    intro s e g asks missing
    rw [(quiet_of_missing asks missing).1, List.length_nil]
  have parts := sum_asked idle s n events
  simp only [delivered_eq, given, List.length_flatMap, deliveredBy, givenBy, apply_ite List.length,
    List.length_nil]
  exact parts

/-- The sum of the counts that some records tell. -/
def counted (records : List LogRecord) : Nat := (records.map LogRecord.count).sum

theorem counted_flatMap {α : Type} (xs : List α) (records : α → List LogRecord) :
    counted (xs.flatMap records) = (xs.map fun x => counted (records x)).sum := by
  induction xs with
  | nil => rfl
  | cons x xs ih =>
    rw [List.flatMap_cons, counted, List.map_append, List.sum_append, ← counted, ← counted, ih,
      List.map_cons, List.sum_cons]

theorem counted_logged (s : Session) (n : Nat) (events : List Event) :
    counted (s.logged n events) =
      ∑ g ∈ (s.run events).1.readersOf n, counted (s.told g events) := by
  have idle : ∀ (s : Session) (e : Event) (g : Nat), e.reader? = some g → s.readers[g]? = none →
      counted (s.step e).2.2 = 0 := by
    intro s e g asks missing
    rw [(quiet_of_missing asks missing).2]
    rfl
  have nothing : counted [] = 0 := rfl
  have parts := sum_asked idle s n events
  simp only [logged, told, counted_flatMap, toldBy, apply_ite counted, nothing]
  exact parts

theorem finished_of_ranOut {g : Nat}
    (reader : (s.run events).1.readers[g]?.map Reader.scanner = some n)
    (ranOut : s.RanOut g events) : s.Finished n events := by
  induction events generalizing s with
  | nil =>
    obtain ⟨x, there, -⟩ := ranOut
    cases there
  | cons e es ih =>
    rcases (ranOut_cons s g e es).mp ranOut with now | later
    · refine .inl (ends_iff.mpr ⟨g, now, ?_⟩)
      obtain ⟨r, scanner, found, -⟩ := now
      have here : s.readers[g]?.map Reader.scanner = some r.scanner := by
        rw [(live?_eq_some found).1, Option.map_some]
      have last := scanner_of_run here (e :: es)
      rw [here, ← last]
      exact reader
    · exact .inr (ih reader later)

theorem delivered_of_finished (origin : (origins sources events)[n]? = some source)
    (finished : (start sources).Finished n events) :
    (start sources).delivered n events = (scan source).1 := by
  obtain ⟨scanner, -, moves, ended⟩ := exists_scanner origin
  have all : (scan source).1 = (start sources).delivered n events ++ scanner.left := moves.left
  rw [all, Scanner.left, Scanner.run_of_done (ended finished), List.append_nil]

/-- When every reader that gave a token has run to its end, the counts that were logged are those
of the tokens delivered. -/
theorem counted_logged_eq
    (complete : ∀ g r, ((start sources).run events).1.readers[g]? = some r → r.scanner = n →
      (start sources).given g events ≠ [] → (start sources).RanOut g events) :
    counted ((start sources).logged n events) = ((start sources).delivered n events).length := by
  rw [counted_logged, length_delivered]
  refine Finset.sum_congr rfl fun g member => ?_
  obtain ⟨r, reader, own⟩ := Option.map_eq_some_iff.mp (mem_readersOf.mp member)
  have account_ := account reader
  by_cases ranOut : (start sources).RanOut g events
  · obtain ⟨source, -, record⟩ := account_.ended ranOut
    rw [record, ← account_.count]
    exact Nat.add_zero _
  · have nothing : (start sources).given g events = [] := by
      by_contra some_
      exact ranOut (complete g r reader own some_)
    rw [account_.quiet ranOut, nothing]
    rfl

/-- Nothing but a reader that runs to its end logs a record. -/
theorem ranOut_of_logged (logs : (s.step e).2.2 ≠ []) : ∃ g, s.RunsOut g e := by
  cases e with
  | next g =>
    cases found : s.live? g with
    | none => simp [step, found] at logs
    | some pair =>
      obtain ⟨r, scanner⟩ := pair
      rcases read : scanner.next with ⟨t, after⟩
      cases t with
      | some t => simp [step, found, read] at logs
      | none =>
        have answer : (s.step (.next g)).2.1 = .none :=
          congrArg (·.2.1) (step_next_none found read)
        exact ⟨g, r, scanner, found, .inr ⟨rfl, answer⟩⟩
  | drain g =>
    cases found : s.live? g with
    | none => simp [step, found] at logs
    | some pair => exact ⟨g, pair.1, pair.2, found, .inl rfl⟩
  | close g =>
    simp only [step] at logs
    split at logs <;> exact absurd rfl logs
  | _ => exact absurd rfl logs

/-- A reader that is closed before its end logs nothing. -/
theorem told_of_closed {before after : List Event}
    (there : ((start sources).run before).1.readers[g]? ≠ none)
    (early : ¬ (start sources).RanOut g before) :
    (start sources).told g (before ++ .close g :: after) = [] := by
  obtain ⟨r, reader⟩ := Option.ne_none_iff_exists'.mp there
  have closed : (((start sources).run before).1.step (.close g)).1.readers[g]? =
      some { r with live := false } := by
    obtain ⟨inside, -⟩ := List.getElem?_eq_some_iff.mp reader
    simp only [step, reader]
    exact List.getElem?_set_self inside
  have never : ¬ (start sources).RanOut g (before ++ .close g :: after) := by
    rw [ranOut_append, ranOut_cons, not_or, not_or]
    have quiet : (Event.close g).reader? ≠ some g := (Option.some_ne_none g).symm
    exact ⟨early, (quiet_of_other quiet).2.2, not_ranOut_of_closed closed rfl⟩
  have last : ((start sources).run (before ++ .close g :: after)).1.readers[g]? ≠ none := by
    have kept := scanner_of_run (s := ((start sources).run before).1)
      (by rw [reader, Option.map_some]) (.close g :: after)
    rw [run_append]
    intro missing
    rw [missing] at kept
    cases kept
  obtain ⟨r', reader'⟩ := Option.ne_none_iff_exists'.mp last
  exact (account reader').quiet never

/-- Whatever readers of a scanner are asked in whatever order: its diagnostics are the first of its
source and, until a reader has run to its end, those that its cursor has reached. A reader logs
one record, with the number of tokens that it gave and of all diagnostics of the source, when it
runs to its end, and none if it is closed before. The counts in these records add up to the tokens
of the source when one reader has run to its end, and all that gave a token. -/
theorem accounts_of_source {sources : List String} {events : List Event} {n : Nat}
    {source : String} (origin : (origins sources events)[n]? = some source) :
    (∃ scanner, ((start sources).run events).1.scanners[n]? = some scanner ∧
      scanner.found <+: (scan source).2 ∧
      (¬ (start sources).Finished n events →
        scanner.cursor.position = Token.stop ((start sources).delivered n events) ∧
        scanner.found = (scan source).2.filter
          (Diagnostic.Reached (Token.stop ((start sources).delivered n events))))) ∧
    (∀ x ∈ (start sources).steps events, (x.1.step x.2).2.2 ≠ [] → ∃ g, x.1.RunsOut g x.2) ∧
    (∀ g r, ((start sources).run events).1.readers[g]? = some r → r.scanner = n →
      ((start sources).RanOut g events → (start sources).told g events =
        [.scanned ((start sources).given g events).length (scan source).2.length]) ∧
      (¬ (start sources).RanOut g events → (start sources).told g events = []) ∧
      ∀ before after, events = before ++ .close g :: after →
        ((start sources).run before).1.readers[g]? ≠ none → ¬ (start sources).RanOut g before →
        (start sources).told g events = []) ∧
    ((∀ g r, ((start sources).run events).1.readers[g]? = some r → r.scanner = n →
        (start sources).given g events ≠ [] → (start sources).RanOut g events) →
      (∃ g r, ((start sources).run events).1.readers[g]? = some r ∧ r.scanner = n ∧
        (start sources).RanOut g events) →
      (((start sources).logged n events).map LogRecord.count).sum = (scan source).1.length) := by
  refine ⟨found_of_source origin, fun x _ logs => ranOut_of_logged logs,
    fun g r reader own => ⟨fun ranOut => ?_, ?_, ?_⟩,
    fun complete ⟨g, r, reader, own, ranOut⟩ => ?_⟩
  · have account_ := account reader
    obtain ⟨source', origin', record⟩ := account_.ended ranOut
    rw [own, origin, Option.some.injEq] at origin'
    rw [record, account_.count, origin']
  · exact (account reader).quiet
  · rintro before after rfl there early
    exact told_of_closed there early
  · have finished : (start sources).Finished n events :=
      finished_of_ranOut (by rw [reader, Option.map_some, own]) ranOut
    rw [← delivered_of_finished origin finished]
    exact counted_logged_eq complete

theorem accounts_of_source_closed :
    let events := [.share 0, .share 0, .close 0, .drain 1]
    (origins ["1.2.3 /*"] events)[0]? = some "1.2.3 /*" ∧
      (start ["1.2.3 /*"]).told 0 events = [] ∧
      (((start ["1.2.3 /*"]).logged 0 events).map LogRecord.count).sum =
        (scan "1.2.3 /*").1.length := by
  intro events
  have origin : (origins ["1.2.3 /*"] events)[0]? = some "1.2.3 /*" := rfl
  obtain ⟨-, -, readers, sum⟩ := accounts_of_source origin
  have ranOut : (start ["1.2.3 /*"]).RanOut 1 events :=
    ⟨_, .tail _ (.tail _ (.tail _ (.head _))), ⟨0, 0, true⟩, .ofSource "1.2.3 /*", rfl, .inl rfl⟩
  refine ⟨origin, ?_, sum (fun g r _ _ gave => ?_) ⟨1, _, rfl, rfl, ranOut⟩⟩
  · refine (readers 0 _ rfl rfl).2.2 [.share 0, .share 0] [.drain 1] rfl nofun ?_
    rintro ⟨x, there, runs⟩
    simp only [steps, List.mem_cons, List.not_mem_nil, or_false] at there
    rcases there with rfl | rfl <;> cases runs.reader?
  · by_cases drained : 1 = g
    · exact drained ▸ ranOut
    · refine absurd ?_ gave
      simp [events, given, steps, givenBy, Event.reader?, drained]

end Session

end ExprLexer
