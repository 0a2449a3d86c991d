import ExprLexer.Scan.Session

/-!
# Shared scanners

Readers of one scanner share its cursor, so that together they deliver the tokens of the source,
each once and in order, whichever of them is asked (`delivered_of_source`).
-/

namespace ExprLexer

theorem Cursor.turn_nil (p : Position) : Cursor.turn ⟨[], p⟩ = .finish [] ⟨[], p⟩ := by
  have nothing : gap [] = ([], []) := by
    rw [gap]
    split
    · next read => cases read
    · rfl
  simp only [Cursor.turn, nothing]
  rfl

theorem Cursor.rest_of_finish {c after : Cursor} {found : List Diagnostic}
    (h : c.turn = .finish found after) : after.rest = [] := by
  unfold Cursor.turn at h
  dsimp only at h
  split at h
  · cases h
    rfl
  · cases h

namespace Scanner

/-- The tokens still to come. -/
def left (s : Scanner) : List Token := s.cursor.run.1

/-- The diagnostics found and still to come. -/
def total (s : Scanner) : List Diagnostic := s.found ++ s.cursor.run.2

def Done (s : Scanner) : Prop := s.cursor.rest = []

theorem run_of_done {s : Scanner} (done : s.Done) : s.cursor.run = ([], []) := by
  obtain ⟨⟨rest, p⟩, found⟩ := s
  obtain rfl : rest = [] := done
  exact Cursor.run_of_finish (Cursor.turn_nil p)

/-- The scanner gives the tokens `ts` and becomes `s'`. -/
structure Moves (s : Scanner) (ts : List Token) (s' : Scanner) : Prop where
  left : s.left = ts ++ s'.left
  total : s'.total = s.total
  done : s.Done → s'.Done

theorem Moves.refl (s : Scanner) : s.Moves [] s := ⟨rfl, rfl, id⟩

theorem Moves.trans {s s' s'' : Scanner} {ts us : List Token} (first : s.Moves ts s')
    (second : s'.Moves us s'') : s.Moves (ts ++ us) s'' where
  left := by rw [first.left, second.left, List.append_assoc]
  total := second.total.trans first.total
  done := second.done ∘ first.done

theorem moves_of_token {s : Scanner} {t : Token} {found : List Diagnostic} {after : Cursor}
    (turn : s.cursor.turn = .token t found after) : s.Moves [t] ⟨after, s.found ++ found⟩ where
  left := by
    rw [Scanner.left, Cursor.run_of_token turn]
    rfl
  total := by simp only [Scanner.total, Cursor.run_of_token turn, List.append_assoc]
  done done := by
    have shorter := Cursor.length_lt_of_turn turn
    rw [done] at shorter
    cases shorter

theorem moves_of_finish {s : Scanner} {found : List Diagnostic} {after : Cursor}
    (turn : s.cursor.turn = .finish found after) :
    s.Moves [] ⟨after, s.found ++ found⟩ ∧ Scanner.Done ⟨after, s.found ++ found⟩ := by
  have done : Scanner.Done ⟨after, s.found ++ found⟩ := Cursor.rest_of_finish turn
  have nothing := run_of_done done
  refine ⟨⟨?_, ?_, fun _ => done⟩, done⟩
  · simp only [Scanner.left, Cursor.run_of_finish turn, nothing, List.append_nil]
  · simp only [Scanner.total, Cursor.run_of_finish turn, nothing, List.append_nil]

theorem next_moves {s after : Scanner} {t : Option Token} (next : s.next = (t, after)) :
    s.Moves t.toList after ∧ (t = none → after.Done) := by
  unfold Scanner.next at next
  split at next
  · next turn =>
    obtain ⟨rfl, rfl⟩ := Prod.mk.inj next
    exact ⟨moves_of_token turn, nofun⟩
  · next turn =>
    obtain ⟨rfl, rfl⟩ := Prod.mk.inj next
    obtain ⟨moves, done⟩ := moves_of_finish turn
    exact ⟨moves, fun _ => done⟩

theorem drain_moves (s : Scanner) : s.Moves s.drain.1 s.drain.2 ∧ s.drain.2.Done := by
  fun_induction Scanner.drain s with
  | case1 s t found after turn tokens last rest ih =>
    rw [rest] at ih
    exact ⟨(moves_of_token turn).trans ih.1, ih.2⟩
  | case2 s found after turn => exact moves_of_finish turn

end Scanner

namespace Session

/-- The scanner of the reader that the event asks for tokens. -/
def asked (s : Session) : Event → Option Nat
  | .next g | .drain g => s.readers[g]?.map Reader.scanner
  | _ => none

def Answer.delivered : Answer → List Token
  | .token t => [t]
  | .tokens ts => ts
  | _ => []

def deliveredBy (s : Session) (n : Nat) (e : Event) : List Token :=
  if s.asked e = some n then (s.step e).2.1.delivered else []

/-- The tokens that all readers of the scanner `n` deliver in a run of events. -/
def delivered (s : Session) (n : Nat) : List Event → List Token
  | [] => []
  | e :: es => s.deliveredBy n e ++ (s.step e).1.delivered n es

/-- A live reader of the scanner `n` runs to its end: it is drained, or asked for one more token
when there is none. -/
def Ends (s : Session) (n : Nat) (e : Event) : Prop :=
  ∃ g r scanner, s.live? g = some (r, scanner) ∧ r.scanner = n ∧
    (e = .drain g ∨ e = .next g ∧ (s.step e).2.1 = .none)

def Finished (s : Session) (n : Nat) : List Event → Prop
  | [] => False
  | e :: es => s.Ends n e ∨ (s.step e).1.Finished n es

def created (sources : List String) : Event → Option String
  | .iterate n => some (sources.getD n "")
  | _ => none

/-- The sources of all scanners behind a run of events, first those given at the start. -/
def origins (sources : List String) (events : List Event) : List String :=
  sources ++ events.filterMap (created sources)

/-! ### One event -/

theorem live?_eq_some {s : Session} {g : Nat} {r : Reader} {scanner : Scanner}
    (found : s.live? g = some (r, scanner)) :
    s.readers[g]? = some r ∧ s.scanners[r.scanner]? = some scanner := by
  simp only [live?, bind, Option.bind_eq_some_iff] at found
  obtain ⟨r', reader, scanner', there, live⟩ := found
  split at live
  · obtain ⟨rfl, rfl⟩ := Prod.mk.inj (Option.some.inj live)
    exact ⟨reader, there⟩
  · cases live

theorem step_next_some {s : Session} {g : Nat} {r : Reader} {scanner after : Scanner} {t : Token}
    (found : s.live? g = some (r, scanner)) (read : scanner.next = (some t, after)) :
    s.step (.next g) = (s.put g r 1 true after, .token t, []) := by
  simp only [step, found, read]

theorem step_next_none {s : Session} {g : Nat} {r : Reader} {scanner after : Scanner}
    (found : s.live? g = some (r, scanner)) (read : scanner.next = (none, after)) :
    s.step (.next g) = (s.put g r 0 false after, .none, [ending r 0 after]) := by
  simp only [step, found, read]

theorem step_drain {s : Session} {g : Nat} {r : Reader} {scanner : Scanner}
    (found : s.live? g = some (r, scanner)) :
    s.step (.drain g) =
      (s.put g r scanner.drain.1.length false scanner.drain.2, .tokens scanner.drain.1,
        [ending r scanner.drain.1.length scanner.drain.2]) := by
  simp only [step, found]

theorem asked_of_live? {s : Session} {g : Nat} {r : Reader} {scanner : Scanner}
    (found : s.live? g = some (r, scanner)) :
    s.asked (.next g) = some r.scanner ∧ s.asked (.drain g) = some r.scanner := by
  simp [asked, (live?_eq_some found).1]

theorem put_moves {s : Session} {n g : Nat} {scanner old after : Scanner} {r : Reader}
    {ts : List Token} (count : Nat) (live : Bool) (there : s.scanners[n]? = some scanner)
    (found : s.live? g = some (r, old)) (moves : old.Moves ts after) :
    ∃ after', (s.put g r count live after).scanners[n]? = some after' ∧
      scanner.Moves (if r.scanner = n then ts else []) after' ∧
      (r.scanner = n → after' = after) := by
  have own := (live?_eq_some found).2
  by_cases same : r.scanner = n
  · subst same
    obtain rfl := Option.some.inj (own.symm.trans there)
    obtain ⟨inside, -⟩ := List.getElem?_eq_some_iff.mp own
    refine ⟨after, List.getElem?_set_self inside, ?_, fun _ => rfl⟩
    rwa [if_pos rfl]
  · refine ⟨scanner, (List.getElem?_set_ne same).trans there, ?_, fun h => absurd h same⟩
    rw [if_neg same]
    exact Scanner.Moves.refl scanner

theorem ends_asked {s : Session} {n : Nat} {e : Event} (ends : s.Ends n e) :
    s.asked e = some n := by
  obtain ⟨g, r, scanner, found, rfl, rfl | ⟨rfl, -⟩⟩ := ends
  · exact (asked_of_live? found).2
  · exact (asked_of_live? found).1

theorem idle_of_silent {s : Session} {e : Event} (silent : s.asked e = none) (n : Nat) :
    s.deliveredBy n e = [] ∧ ¬ s.Ends n e := by
  refine ⟨?_, fun ends => ?_⟩
  · rw [deliveredBy, silent, if_neg nofun]
  · rw [ends_asked ends] at silent
    cases silent

theorem idle_of_dead {s : Session} {e : Event} {g : Nat} (asks : e = .next g ∨ e = .drain g)
    (dead : s.live? g = none) (n : Nat) :
    (s.step e).1 = s ∧ s.deliveredBy n e = [] ∧ ¬ s.Ends n e := by
  have step_ : (s.step e).1 = s ∧ (s.step e).2.1.delivered = [] := by
    rcases asks with rfl | rfl <;> simp [step, dead, Answer.delivered]
  refine ⟨step_.1, ?_, ?_⟩
  · rw [deliveredBy, step_.2, ite_self]
  · rintro ⟨g', r, own, live, -, runs⟩
    have same : g' = g := by
      rcases asks with rfl | rfl <;> rcases runs with h | ⟨h, -⟩ <;> cases h <;> rfl
    rw [same, dead] at live
    cases live

theorem next_moves {s : Session} {n g : Nat} {scanner own : Scanner} {r : Reader}
    (there : s.scanners[n]? = some scanner) (found : s.live? g = some (r, own)) :
    ∃ after, (s.step (.next g)).1.scanners[n]? = some after ∧
      scanner.Moves (s.deliveredBy n (.next g)) after ∧ (s.Ends n (.next g) → after.Done) := by
  have asked_ := (asked_of_live? found).1
  rcases read : own.next with ⟨t, moved⟩
  obtain ⟨moves, done⟩ := Scanner.next_moves read
  cases t with
  | some t =>
    have step_ := step_next_some found read
    obtain ⟨after, kept, seen, -⟩ := put_moves 1 true there found moves
    refine ⟨after, by rw [step_]; exact kept, ?_, ?_⟩
    · rw [deliveredBy, asked_, step_]
      simp only [Option.some.injEq]
      exact seen
    · rintro ⟨g', r', own', -, -, h | ⟨-, none⟩⟩
      · cases h
      · rw [step_] at none
        cases none
  | none =>
    have step_ := step_next_none found read
    obtain ⟨after, kept, seen, same⟩ := put_moves 0 false there found moves
    refine ⟨after, by rw [step_]; exact kept, ?_, fun ends => ?_⟩
    · rw [deliveredBy, asked_, step_]
      simp only [Option.some.injEq]
      exact seen
    · have own_ : r.scanner = n := Option.some.inj (asked_.symm.trans (ends_asked ends))
      rw [same own_]
      exact done rfl

theorem drain_moves {s : Session} {n g : Nat} {scanner own : Scanner} {r : Reader}
    (there : s.scanners[n]? = some scanner) (found : s.live? g = some (r, own)) :
    ∃ after, (s.step (.drain g)).1.scanners[n]? = some after ∧
      scanner.Moves (s.deliveredBy n (.drain g)) after ∧ (s.Ends n (.drain g) → after.Done) := by
  have asked_ := (asked_of_live? found).2
  obtain ⟨moves, done⟩ := own.drain_moves
  obtain ⟨after, kept, seen, same⟩ :=
    put_moves own.drain.1.length false there found moves
  have step_ := step_drain found
  refine ⟨after, by rw [step_]; exact kept, ?_, fun ends => ?_⟩
  · rw [deliveredBy, asked_, step_]
    simp only [Option.some.injEq]
    exact seen
  · have own_ : r.scanner = n := Option.some.inj (asked_.symm.trans (ends_asked ends))
    rw [same own_]
    exact done

/-- An event changes no scanner but the one that it asks, and this one moves on by the tokens that
it delivers. -/
theorem step_moves {s : Session} {n : Nat} {scanner : Scanner} (e : Event)
    (there : s.scanners[n]? = some scanner) :
    ∃ after, (s.step e).1.scanners[n]? = some after ∧ scanner.Moves (s.deliveredBy n e) after ∧
      (s.Ends n e → after.Done) := by
  have idle : (s.step e).1.scanners[n]? = some scanner → s.deliveredBy n e = [] ∧ ¬ s.Ends n e →
      ∃ after, (s.step e).1.scanners[n]? = some after ∧ scanner.Moves (s.deliveredBy n e) after ∧
        (s.Ends n e → after.Done) := by
    rintro kept ⟨nothing, runs⟩
    refine ⟨scanner, kept, ?_, fun ends => absurd ends runs⟩
    rw [nothing]
    exact Scanner.Moves.refl scanner
  cases e with
  | share m => exact idle there (idle_of_silent rfl n)
  | diagnostics m => exact idle there (idle_of_silent rfl n)
  | iterate m =>
    obtain ⟨inside, -⟩ := List.getElem?_eq_some_iff.mp there
    exact idle ((List.getElem?_append_left inside).trans there) (idle_of_silent rfl n)
  | close g =>
    refine idle ?_ (idle_of_silent rfl n)
    simp only [step]
    split <;> exact there
  | next g =>
    cases found : s.live? g with
    | none =>
      obtain ⟨same, quiet⟩ := idle_of_dead (Or.inl rfl) found n
      exact idle (by rwa [same]) quiet
    | some pair => exact next_moves there found
  | drain g =>
    cases found : s.live? g with
    | none =>
      obtain ⟨same, quiet⟩ := idle_of_dead (Or.inr rfl) found n
      exact idle (by rwa [same]) quiet
    | some pair => exact drain_moves there found

/-! ### A run of events -/

theorem run_moves {s : Session} {n : Nat} {scanner : Scanner} (events : List Event)
    (there : s.scanners[n]? = some scanner) :
    ∃ after, (s.run events).1.scanners[n]? = some after ∧
      scanner.Moves (s.delivered n events) after ∧ (s.Finished n events → after.Done) := by
  induction events generalizing s scanner with
  | nil => exact ⟨scanner, there, Scanner.Moves.refl scanner, False.elim⟩
  | cons e es ih =>
    obtain ⟨middle, there, first, ended⟩ := step_moves e there
    obtain ⟨after, there, second, finished⟩ := ih there
    refine ⟨after, there, first.trans second, fun h => ?_⟩
    rcases h with now | later
    · exact second.done (ended now)
    · exact finished later

theorem idle_of_missing {s : Session} {n : Nat} (missing : s.scanners[n]? = none) (e : Event) :
    s.deliveredBy n e = [] ∧ ¬ s.Ends n e := by
  by_cases own : s.asked e = some n
  · have dead : ∀ g, s.readers[g]?.map Reader.scanner = some n → s.live? g = none := by
      intro g reader
      cases found : s.live? g with
      | none => rfl
      | some pair =>
        obtain ⟨read, there⟩ := live?_eq_some found
        rw [read] at reader
        rw [Option.some.inj reader, missing] at there
        cases there
    cases e with
    | next g => exact (idle_of_dead (Or.inl rfl) (dead g own) n).2
    | drain g => exact (idle_of_dead (Or.inr rfl) (dead g own) n).2
    | _ => cases own
  · exact ⟨if_neg own, fun ends => own (ends_asked ends)⟩

theorem step_sources (s : Session) (e : Event) : (s.step e).1.sources = s.sources := by
  cases e <;> simp only [step, put] <;> repeat' split
  all_goals rfl

theorem length_step_scanners {s : Session} {e : Event} (old : created s.sources e = none) :
    (s.step e).1.scanners.length = s.scanners.length := by
  cases e with
  | iterate m => cases old
  | _ =>
    simp only [step, put]
    repeat' split
    all_goals simp only [List.length_set]

/-- A scanner that a run of events creates works through its own source from the start. -/
theorem run_of_created {s : Session} {n : Nat} {source : String} (events : List Event)
    (new : s.scanners.length ≤ n)
    (origin : (events.filterMap (created s.sources))[n - s.scanners.length]? = some source) :
    ∃ after, (s.run events).1.scanners[n]? = some after ∧
      (Scanner.ofSource source).Moves (s.delivered n events) after ∧
      (s.Finished n events → after.Done) := by
  induction events generalizing s with
  | nil => cases origin
  | cons e es ih =>
    -- Before the scanner is there, no event counts for it.
    obtain ⟨nothing, runs⟩ := idle_of_missing (List.getElem?_eq_none new) e
    have skip : s.delivered n (e :: es) = (s.step e).1.delivered n es ∧
        (s.Finished n (e :: es) ↔ (s.step e).1.Finished n es) := by
      rw [delivered, nothing, List.nil_append]
      exact ⟨rfl, or_iff_right runs⟩
    rw [skip.1, skip.2]
    change ∃ after, ((s.step e).1.run es).1.scanners[n]? = some after ∧ _
    cases made : created s.sources e with
    | none =>
      rw [List.filterMap_cons_none made] at origin
      have length := length_step_scanners made
      exact ih (by rwa [length]) (by rwa [length, step_sources])
    | some first =>
      rw [List.filterMap_cons_some made] at origin
      cases e with
      | iterate m =>
        rcases Nat.eq_or_lt_of_le new with last | before
        · -- The new scanner is the one in question.
          obtain rfl : first = source := by
            rw [last, Nat.sub_self] at origin
            exact Option.some.inj origin
          refine run_moves es ?_
          rw [← last, ← Option.some.inj made]
          exact List.getElem?_concat_length
        · have length : (s.step (.iterate m)).1.scanners.length = s.scanners.length + 1 :=
            List.length_append
          refine ih (by rwa [length]) ?_
          obtain ⟨k, rfl⟩ := Nat.exists_eq_add_of_lt before
          rw [length, step_sources]
          rw [show s.scanners.length + k + 1 - s.scanners.length = k + 1 by omega] at origin
          rw [show s.scanners.length + k + 1 - (s.scanners.length + 1) = k by omega]
          exact origin
      | _ => cases made

/-- Behind any run of events each scanner has moved on by the tokens delivered from it. -/
theorem exists_scanner {sources : List String} {events : List Event} {n : Nat} {source : String}
    (origin : (origins sources events)[n]? = some source) :
    ∃ after, ((start sources).run events).1.scanners[n]? = some after ∧
      (Scanner.ofSource source).Moves ((start sources).delivered n events) after ∧
      ((start sources).Finished n events → after.Done) := by
  have length : (start sources).scanners.length = sources.length := List.length_map _
  rcases Nat.lt_or_ge n sources.length with inside | new
  · rw [origins, List.getElem?_append_left inside] at origin
    refine run_moves events ?_
    simp only [start, List.getElem?_map, origin, Option.map_some]
  · rw [origins, List.getElem?_append_right new] at origin
    exact run_of_created events (by rwa [length]) (by rwa [length])

/-- Whichever readers of one scanner are asked, and whatever else happens in between, they deliver
the tokens of its source from the front. When a reader has run to its end, all tokens have been
delivered, the scanner knows all diagnostics, and no reader delivers anything more. -/
theorem delivered_of_source {sources : List String} {events : List Event} {n : Nat}
    {source : String} (origin : (origins sources events)[n]? = some source) :
    (start sources).delivered n events <+: (scan source).1 ∧
      ((start sources).Finished n events →
        (start sources).delivered n events = (scan source).1 ∧
        (((start sources).run events).1.step (.diagnostics n)).2.1 =
          .diagnostics (scan source).2 ∧
        ∀ later, ((start sources).run events).1.delivered n later = []) := by
  obtain ⟨after, there, moves, ended⟩ := exists_scanner origin
  have all : (scan source).1 = (start sources).delivered n events ++ after.left := moves.left
  refine ⟨⟨after.left, all.symm⟩, fun finished => ?_⟩
  have nothing := Scanner.run_of_done (ended finished)
  have left : after.left = [] := congrArg Prod.fst nothing
  refine ⟨?_, ?_, fun later => ?_⟩
  · rw [all, left, List.append_nil]
  · have total : after.found ++ after.cursor.run.2 = (scan source).2 := moves.total
    rw [nothing, List.append_nil] at total
    simp only [step, there, Option.elim_some, total]
  · obtain ⟨last, -, more, -⟩ := run_moves later there
    have none_left := more.left
    rw [left] at none_left
    exact (List.append_eq_nil_iff.mp none_left.symm).1

theorem delivered_of_source_two_readers :
    let events := [.share 0, .share 0, .close 0, .drain 1, .next 0]
    (origins ["1 + a // b"] events)[0]? = some "1 + a // b" ∧
      (start ["1 + a // b"]).Finished 0 events ∧
      (start ["1 + a // b"]).delivered 0 events = (scan "1 + a // b").1 := by
  intro events
  have origin : (origins ["1 + a // b"] events)[0]? = some "1 + a // b" := rfl
  have ends : (start ["1 + a // b"]).Finished 0 events :=
    .inr (.inr (.inr (.inl ⟨1, ⟨0, 0, true⟩, .ofSource "1 + a // b", rfl, rfl, .inl rfl⟩)))
  exact ⟨origin, ends, ((delivered_of_source origin).2 ends).1⟩

end Session

end ExprLexer
