import ExprLexer.Proofs.Scan.Progress

/-!
# Resumed scans

A scan remembers nothing but its cursor. Wherever a scanner stands, it goes on as a scan of the
text that is left would, at positions relocated behind the text that has been read
(`resumed_of_source`).
-/

namespace ExprLexer

/-- The position `q` of a text that starts at `p`. Columns change on the first line only. -/
def Position.relocate (p q : Position) : Position :=
  if q.line = 1 then ⟨p.line, p.column + q.column - 1⟩ else ⟨p.line + q.line - 1, q.column⟩

def Token.relocate (p : Position) (t : Token) : Token :=
  { t with
    line := if t.line = 1 then p.line else p.line + t.line - 1
    column := if t.line = 1 then p.column + t.column - 1 else t.column }

def Diagnostic.relocate (p : Position) (d : Diagnostic) : Diagnostic :=
  { d with position := p.relocate d.position }

namespace Cursor

def relocate (p : Position) (c : Cursor) : Cursor := { c with position := p.relocate c.position }

/-- The cursor at the offset `n` of a source. -/
def ofOffset (s : List Char) (n : Nat) : Cursor := ⟨s.drop n, .ofPrefix (s.take n)⟩

end Cursor

def Turn.relocate (p : Position) : Turn → Turn
  | .token t found after =>
    .token (t.relocate p) (found.map (Diagnostic.relocate p)) (after.relocate p)
  | .finish found after => .finish (found.map (Diagnostic.relocate p)) (after.relocate p)

/-! ### Relocated positions -/

namespace Position

/-- Lines and columns are counted from one. -/
def FromOne (q : Position) : Prop := 1 ≤ q.line ∧ 1 ≤ q.column

theorem fromOne_start : start.FromOne := ⟨Nat.le_refl 1, Nat.le_refl 1⟩

theorem FromOne.next {q : Position} (fromOne : q.FromOne) (c : Char) : (q.next c).FromOne := by
  unfold FromOne Position.next at *
  split
  · exact ⟨Nat.le_add_left 1 q.line, Nat.le_refl 1⟩
  · exact ⟨fromOne.1, Nat.le_add_left 1 q.column⟩

theorem FromOne.after {q : Position} (fromOne : q.FromOne) (cs : List Char) :
    (q.after cs).FromOne := by
  induction cs generalizing q with
  | nil => exact fromOne
  | cons c cs ih => exact ih (fromOne.next c)

theorem relocate_first (p : Position) {q : Position} (first : q.line = 1) :
    p.relocate q = ⟨p.line, p.column + q.column - 1⟩ := if_pos first

theorem relocate_below (p : Position) {q : Position} (below : q.line ≠ 1) :
    p.relocate q = ⟨p.line + q.line - 1, q.column⟩ := if_neg below

theorem relocate_next (p : Position) {q : Position} (fromOne : q.FromOne) (c : Char) :
    (p.relocate q).next c = p.relocate (q.next c) := by
  obtain ⟨line, column⟩ := fromOne
  by_cases feed : c = '\n'
  · have below : q.line + 1 ≠ 1 := by omega
    have lines : (p.relocate q).line + 1 = p.line + (q.line + 1) - 1 := by
      by_cases first : q.line = 1
      · rw [relocate_first p first, first]
        rfl
      · rw [relocate_below p first]
        dsimp only
        omega
    rw [next, next, if_pos feed, if_pos feed, lines]
    exact (relocate_below p (q := ⟨q.line + 1, 1⟩) below).symm
  · rw [next, next, if_neg feed, if_neg feed]
    by_cases first : q.line = 1
    · have columns : p.column + q.column - 1 + 1 = p.column + (q.column + 1) - 1 := by omega
      rw [relocate_first p first, columns]
      exact (relocate_first p (q := ⟨q.line, q.column + 1⟩) first).symm
    · rw [relocate_below p first]
      exact (relocate_below p (q := ⟨q.line, q.column + 1⟩) first).symm

/-- To relocate a position and to go on from it commute. -/
theorem relocate_after (p : Position) {q : Position} (fromOne : q.FromOne) (cs : List Char) :
    (p.relocate q).after cs = p.relocate (q.after cs) := by
  induction cs generalizing q with
  | nil => rfl
  | cons c cs ih => rw [after_cons, after_cons, relocate_next p fromOne, ih (fromOne.next c)]

end Position

theorem Token.relocate_located (p : Position) {q : Position} (fromOne : q.FromOne) (k : Kind)
    (s : List Char) :
    (Token.located k s q).relocate p = Token.located k s (p.relocate q) := by
  obtain ⟨line, column⟩ := fromOne
  by_cases first : q.line = 1
  · have column_ : (p.column : Int) + q.column - 1 = (p.column + q.column - 1 : Nat) := by omega
    simp only [p.relocate_first first, relocate, located, first, column_, Int.natCast_one, if_pos]
  · have first' : (q.line : Int) ≠ 1 := by omega
    have line_ : (p.line : Int) + q.line - 1 = (p.line + q.line - 1 : Nat) := by omega
    simp only [p.relocate_below first, relocate, located, first', line_, if_false]

/-! ### Relocated turns -/

namespace Cursor

variable {c after : Cursor} {t : Token} {found : List Diagnostic}

/-- A turn looks at the text that is left, and carries its position along. -/
theorem turn_relocate (p : Position) (fromOne : c.position.FromOne) :
    (c.relocate p).turn = c.turn.relocate p := by
  have moves := p.relocate_after fromOne
  -- Gap and lexeme are read from the text, which is the same for both cursors.
  unfold turn relocate
  dsimp only
  rw [moves, gapDiagnostics_move moves]
  cases (gap c.rest).2 with
  | nil => rfl
  | cons ch rest =>
    have behind := fromOne.after (gapText (gap c.rest).1)
    have later := p.relocate_after behind
    dsimp only [Turn.relocate, relocate]
    rw [Token.relocate_located p behind, lexemeDiagnostics_move later, later, List.map_append]
    rfl

theorem exists_passed (turn : c.turn = .token t found after) :
    ∃ cs, cs ≠ [] ∧ c.rest = cs ++ after.rest ∧ after.position = c.position.after cs := by
  rcases c.turn_cases with ⟨gap, -, -, finish⟩ | ⟨gap, l, rest, text, -, fits, token⟩
  · rw [finish] at turn
    cases turn
  · rw [token] at turn
    obtain ⟨-, -, rfl⟩ := Turn.token.inj turn
    refine ⟨gapText gap ++ l.text, ?_, ?_, ?_⟩
    · simp [fits.ne_nil]
    · rw [text, List.append_assoc]
    · rw [Position.after_append]

theorem eq_of_finish (turn : c.turn = .finish found after) :
    after = ⟨[], c.position.after c.rest⟩ := by
  rcases c.turn_cases with ⟨gap, text, -, finish⟩ | ⟨gap, l, rest, -, -, -, token⟩
  · rw [finish] at turn
    rw [text]
    exact (Turn.finish.inj turn).2.symm
  · rw [token] at turn
    cases turn

/-- A run from a relocated cursor is the run from the cursor itself, relocated. -/
theorem run_relocate (p : Position) (fromOne : c.position.FromOne) :
    (c.relocate p).run =
      (c.run.1.map (Token.relocate p), c.run.2.map (Diagnostic.relocate p)) := by
  fun_induction run c with
  | case1 c t found after turn tokens diagnostics rest ih =>
    obtain ⟨cs, -, -, position⟩ := exists_passed turn
    have behind : after.position.FromOne := by
      rw [position]
      exact fromOne.after cs
    have step := turn_relocate p fromOne
    rw [turn] at step
    rw [run_of_token step, ih behind, rest, List.map_cons, List.map_append]
  | case2 c found after turn =>
    have step := turn_relocate p fromOne
    rw [turn] at step
    exact run_of_finish step

theorem run_eq_scan (c : Cursor) :
    c.run = ((scan (String.ofList c.rest)).1.map (Token.relocate c.position),
      (scan (String.ofList c.rest)).2.map (Diagnostic.relocate c.position)) := by
  rw [scan, String.toList_ofList, ← run_relocate c.position Position.fromOne_start]
  rfl

theorem length_run_le (c : Cursor) : c.run.1.length ≤ c.rest.length := by
  fun_induction run c with
  | case1 c t found after turn tokens diagnostics rest ih =>
    have shorter := length_lt_of_turn turn
    rw [rest] at ih
    exact Nat.lt_of_le_of_lt ih shorter
  | case2 c found after turn => exact Nat.zero_le _

/-! ### Offsets -/

variable {s : List Char} {n : Nat}

theorem eq_ofOffset_of_passed {cs : List Char} (inside : n ≤ s.length)
    (rest : (ofOffset s n).rest = cs ++ after.rest)
    (position : after.position = (ofOffset s n).position.after cs) :
    n + cs.length ≤ s.length ∧ after = ofOffset s (n + cs.length) := by
  have dropped : s.drop n = cs ++ after.rest := rest
  constructor
  · have total := congrArg List.length dropped
    rw [List.length_drop, List.length_append] at total
    omega
  · have left : after.rest = s.drop (n + cs.length) := by
      rw [← List.drop_drop, dropped, List.drop_left]
    have passed : s.take n ++ cs = s.take (n + cs.length) := by
      rw [List.take_add, dropped, List.take_left]
    rw [ofOffset, ← left, ← passed, ← Position.start_after, Position.after_append,
      Position.start_after]
    exact congrArg (Cursor.mk after.rest) position

theorem turn_ofOffset (inside : n ≤ s.length) (turn : (ofOffset s n).turn = .token t found after) :
    ∃ m, n < m ∧ m ≤ s.length ∧ after = ofOffset s m := by
  obtain ⟨cs, some_, rest, position⟩ := exists_passed turn
  obtain ⟨within, same⟩ := eq_ofOffset_of_passed inside rest position
  have longer := List.length_pos_iff.mpr some_
  exact ⟨n + cs.length, by omega, within, same⟩

theorem finish_ofOffset (turn : (ofOffset s n).turn = .finish found after) :
    after = ofOffset s s.length := by
  obtain rfl := eq_of_finish turn
  have passed : s.take n ++ s.drop n = s.take s.length := by
    rw [List.take_append_drop, List.take_length]
  rw [ofOffset, ofOffset, ← Position.start_after, ← Position.start_after, ← passed,
    Position.after_append, List.drop_length]

end Cursor

/-! ### Scanners -/

namespace Scanner

theorem drain_fst (s : Scanner) : s.drain.1 = s.cursor.run.1 := by
  obtain ⟨moves, done⟩ := s.drain_moves
  have left := moves.left
  rw [Scanner.left, Scanner.left, run_of_done done, List.append_nil] at left
  exact left.symm

theorem drain_found (s : Scanner) : s.drain.2.found = s.found ++ s.cursor.run.2 := by
  obtain ⟨moves, done⟩ := s.drain_moves
  have total := moves.total
  rwa [Scanner.total, Scanner.total, run_of_done done, List.append_nil] at total

/-- What every turn keeps, a drain keeps. -/
theorem drain_keeps {P : Scanner → Prop} (keeps : ∀ s, P s → P s.next.2) (s : Scanner)
    (holds : P s) : P s.drain.2 := by
  fun_induction drain s with
  | case1 s t found after turn tokens last rest ih =>
    have here := keeps s holds
    rw [next, turn] at here
    have behind := ih here
    rwa [rest] at behind
  | case2 s found after turn =>
    have here := keeps s holds
    rwa [next, turn] at here

/-- The scanner stands at an offset of the text. -/
def Within (text : List Char) (s : Scanner) : Prop :=
  ∃ n ≤ text.length, s.cursor = .ofOffset text n

theorem within_ofSource (source : String) : (ofSource source).Within source.toList :=
  ⟨0, Nat.zero_le _, rfl⟩

theorem next_of_token {text : List Char} {n : Nat} {s after : Scanner} {t : Token}
    (inside : n ≤ text.length) (here : s.cursor = .ofOffset text n)
    (read : s.next = (some t, after)) :
    ∃ m, n < m ∧ m ≤ text.length ∧ after.cursor = .ofOffset text m := by
  unfold next at read
  split at read
  · next turn =>
    obtain ⟨-, rfl⟩ := Prod.mk.inj read
    rw [here] at turn
    exact Cursor.turn_ofOffset inside turn
  · cases (Prod.mk.inj read).1

theorem next_of_finish {text : List Char} {n : Nat} {s after : Scanner}
    (here : s.cursor = .ofOffset text n) (read : s.next = (none, after)) :
    after.cursor = .ofOffset text text.length := by
  unfold next at read
  split at read
  · cases (Prod.mk.inj read).1
  · next turn =>
    obtain ⟨-, rfl⟩ := Prod.mk.inj read
    rw [here] at turn
    exact Cursor.finish_ofOffset turn

theorem Within.next {text : List Char} {s : Scanner} (within_ : s.Within text) :
    s.next.2.Within text := by
  obtain ⟨n, inside, here⟩ := within_
  rcases read : s.next with ⟨t, after⟩
  cases t with
  | some t =>
    obtain ⟨m, -, inside, there⟩ := next_of_token inside here read
    exact ⟨m, inside, there⟩
  | none => exact ⟨text.length, Nat.le_refl _, next_of_finish here read⟩

end Scanner

/-! ### Sessions -/

namespace Session

variable {s : Session} {n : Nat} {scanner : Scanner} {P : Scanner → Prop}
  {sources : List String} {events : List Event} {source : String}

/-- What every turn keeps, an event keeps. -/
theorem step_keeps (keeps : ∀ s, P s → P s.next.2) (there : s.scanners[n]? = some scanner)
    (holds : P scanner) (e : Event) :
    ∃ after, (s.step e).1.scanners[n]? = some after ∧ P after := by
  obtain ⟨inside, -⟩ := List.getElem?_eq_some_iff.mp there
  by_cases asked_ : s.asked e = some n
  · rcases idle_or_live there asked_ with ⟨same, -⟩ | ⟨g, r, found, rfl, rfl | rfl⟩
    · exact ⟨scanner, by rw [same]; exact there, holds⟩
    · refine ⟨scanner.next.2, ?_, keeps scanner holds⟩
      rcases read : scanner.next with ⟨t, after⟩
      cases t with
      | some t =>
        rw [step_next_some found read]
        exact List.getElem?_set_self inside
      | none =>
        rw [step_next_none found read]
        exact List.getElem?_set_self inside
    · refine ⟨scanner.drain.2, ?_, Scanner.drain_keeps keeps scanner holds⟩
      rw [step_drain found]
      exact List.getElem?_set_self inside
  · exact ⟨scanner, scanners_step_of_other there asked_, holds⟩

/-- What holds of a fresh scanner of a source and what every turn keeps holds of the scanners of
this source in every session. -/
theorem scanner_keeps (first : P (.ofSource source)) (keeps : ∀ s, P s → P s.next.2)
    (origin : (origins sources events)[n]? = some source) :
    ∃ scanner, ((start sources).run events).1.scanners[n]? = some scanner ∧ P scanner := by
  induction events using List.reverseRecOn with
  | nil =>
    have given_ : sources[n]? = some source := by
      rwa [origins, List.filterMap_nil, List.append_nil] at origin
    refine ⟨.ofSource source, ?_, first⟩
    rw [run, start, List.getElem?_map, given_, Option.map_some]
  | append_singleton es e ih =>
    cases before : ((start sources).run es).1.scanners[n]? with
    | some old =>
      obtain ⟨source', origin'⟩ := exists_origin before
      obtain rfl := Option.some.inj ((origins_append origin' [e]).symm.trans origin)
      obtain ⟨scanner, there, holds⟩ := ih origin'
      rw [run_append]
      exact step_keeps keeps there holds e
    | none =>
      -- The last event creates the scanner, and so with the source that `origin` tells of.
      obtain ⟨scanner, there, -⟩ := exists_scanner origin
      rw [run_append] at there ⊢
      obtain ⟨source', made, last, rfl⟩ := exists_ofSource before there
      rw [length_scanners] at last
      have created_ : created sources e = some source' := by
        rw [run_sources] at made
        exact made
      have origin' := origins_concat es created_
      rw [← last] at origin'
      obtain rfl := Option.some.inj (origin'.symm.trans origin)
      exact ⟨_, there, first⟩

/-- Wherever a scanner stands in a session, its cursor is the offset that it has reached in its
source, with the position of this offset. The tokens and diagnostics that are still to come are
those of a scan of the text behind the offset, relocated to the position. Every turn that gives a
token moves the offset on, so that a source has at most as many tokens as characters. -/
theorem resumed_of_source (origin : (origins sources events)[n]? = some source) :
    ∃ scanner pos, ((start sources).run events).1.scanners[n]? = some scanner ∧
      pos ≤ source.length ∧ scanner.cursor = .ofOffset source.toList pos ∧
      scanner.drain.1 = (scan (String.ofList (source.toList.drop pos))).1.map
        (Token.relocate scanner.cursor.position) ∧
      scanner.drain.2.found = scanner.found ++
        (scan (String.ofList (source.toList.drop pos))).2.map
          (Diagnostic.relocate scanner.cursor.position) ∧
      (∀ t after, scanner.next = (some t, after) →
        ∃ later, pos < later ∧ later ≤ source.length ∧
          after.cursor = .ofOffset source.toList later) ∧
      (scan source).1.length ≤ source.length := by
  obtain ⟨scanner, there, pos, inside, here⟩ :=
    scanner_keeps (Scanner.within_ofSource source) (fun _ => Scanner.Within.next) origin
  have left := scanner.cursor.run_eq_scan
  have rest : scanner.cursor.rest = source.toList.drop pos := congrArg Cursor.rest here
  rw [rest] at left
  rw [← String.length_toList]
  refine ⟨scanner, pos, there, inside, here, ?_, ?_,
    fun t after => Scanner.next_of_token inside here, ?_⟩
  · rw [Scanner.drain_fst, left]
  · rw [Scanner.drain_found, left]
  · exact Cursor.length_run_le (.ofSource source.toList)

theorem resumed_of_source_second_point :
    let events := [.share 0, .next 0]
    (origins ["a 1.2.\n/*"] events)[0]? = some "a 1.2.\n/*" ∧
      ∃ scanner, ((start ["a 1.2.\n/*"]).run events).1.scanners[0]? = some scanner ∧
        scanner.cursor = ⟨[' ', '1', '.', '2', '.', '\n', '/', '*'], ⟨1, 2⟩⟩ ∧
        scanner.drain.1 = [⟨.literal, "1.2", 1, 3⟩, ⟨.unknown, ".", 1, 6⟩] ∧
        scanner.drain.2.found = [⟨.extraDecimalPoint ['1', '.', '2'], ⟨1, 6⟩⟩,
          ⟨.unknownCharacter '.', ⟨1, 6⟩⟩, ⟨.unterminatedComment, ⟨2, 1⟩⟩] := by
  intro events
  let L : Tiling := .tile [.blank ' '] ⟨.literal, ['1', '.', '2']⟩
    (.tile [] ⟨.unknown, ['.']⟩ (.last [.blank '\n', .openComment []]))
  have exact_ : L.Exact := by
    refine ⟨⟨rfl, trivial, trivial⟩,
      @Lexeme.Fits.decimal ['1'] ['2'] (by decide) (List.forall_mem_singleton.mpr rfl)
        (List.forall_mem_singleton.mpr rfl), ?_, trivial,
      .unknown rfl rfl (by decide) (by decide), nofun, rfl, trivial, by decide, rfl, trivial⟩
    simp [Lexeme.EndsBefore, Lexeme.GoesOn, Tiling.text, gapText]
  have first : (Cursor.ofSource "a 1.2.\n/*".toList).turn =
      .token ⟨.identifier, "a", 1, 1⟩ [] ⟨L.text, ⟨1, 2⟩⟩ := by
    have word : Lexeme.Fits ⟨.identifier, ['a']⟩ :=
      .identifier rfl (List.forall_mem_nil _) (by decide)
    have ends : Lexeme.EndsBefore ⟨.identifier, ['a']⟩ L.text := by
      intro c head
      obtain rfl := Option.some.inj head
      exact Lexeme.not_goesOn_blank rfl
    exact @Cursor.turn_tile [] _ _ trivial word ends .start
  have read : (Scanner.ofSource "a 1.2.\n/*").next =
      (some ⟨.identifier, "a", 1, 1⟩, ⟨⟨L.text, ⟨1, 2⟩⟩, []⟩) := by
    rw [Scanner.next, Scanner.ofSource, first]
    rfl
  have known : ((start ["a 1.2.\n/*"]).run events).1.scanners[0]? =
      some ⟨⟨L.text, ⟨1, 2⟩⟩, []⟩ := by
    have step_ := step_next_some (s := ((start ["a 1.2.\n/*"]).step (.share 0)).1) (g := 0) rfl read
    exact congrArg (·.1.scanners[0]?) step_
  have origin : (origins ["a 1.2.\n/*"] events)[0]? = some "a 1.2.\n/*" := rfl
  obtain ⟨scanner, pos, there, -, here, tokens, found, -⟩ := resumed_of_source origin
  obtain rfl := Option.some.inj (there.symm.trans known)
  have rest : L.text = "a 1.2.\n/*".toList.drop pos := congrArg Cursor.rest here
  rw [← rest, Tiling.scan_eq String.toList_ofList.symm exact_] at tokens found
  exact ⟨origin, _, there, rfl, tokens, found⟩

end Session

end ExprLexer
