import ExprLexer.Proofs.Scan.Appending
import ExprLexer.Proofs.Scan.Steps

/-!
# Diagnostics found so far

A scanner of which no reader has run to its end stands at the end of its last token, and has found
just the diagnostics that are placed in front of it or tell of a second decimal point there
(`found_of_source`).
-/

namespace ExprLexer

instance : DecidableRel Position.Before := fun p q =>
  inferInstanceAs (Decidable (p.line < q.line ∨ p.line = q.line ∧ p.column < q.column))

/-- Where the last of the tokens ends; without tokens, where a source starts. -/
def Token.stop (ts : List Token) : Position :=
  match ts.getLast? with
  | none => .start
  | some t => ⟨t.line.toNat, t.column.toNat + t.text.length⟩

/-- The diagnostic is placed in front of the position, or tells of a second decimal point there. -/
def Diagnostic.Reached (p : Position) (d : Diagnostic) : Prop :=
  d.position.Before p ∨ d.cause.code = "extra-decimal-point" ∧ d.position = p

instance (p : Position) : DecidablePred (Diagnostic.Reached p) := fun d =>
  inferInstanceAs (Decidable (d.position.Before p ∨
    d.cause.code = "extra-decimal-point" ∧ d.position = p))

/-! ### Cursors -/

theorem Token.stop_located {k : Kind} {text : List Char} (noFeed : '\n' ∉ text) (p : Position)
    (ts : List Token) : stop (ts ++ [located k text p]) = p.after text := by
  rw [stop, List.getLast?_concat, Position.after_line noFeed]
  simp [located]

namespace Tiling

variable {L : Tiling} {p : Position} {d : Diagnostic}

theorem not_reached_of_mem (exact_ : L.Exact) (member : d ∈ L.diagnostics p) : ¬ d.Reached p := by
  rintro (before | ⟨point, same⟩)
  · exact not_before_of_mem exact_ member before
  · cases L with
    | last gap =>
      have open_ := unterminated_of_mem_gapDiagnostics member
      rw [open_] at point
      exact absurd point (by decide)
    | tile gap l rest =>
      obtain ⟨isGap, fits, -, exact_⟩ := exact_
      have more : l.text ++ rest.text ≠ [] := by simp [fits.ne_nil]
      -- A second decimal point is told of behind its token, and so behind the place itself.
      have strict : p.Before ((p.after (gapText gap)).after l.text) := by
        rw [← Position.after_append]
        exact Position.before_after (by simp [fits.ne_nil]) p
      rw [diagnostics, gapDiagnostics_eq_nil isGap more, List.nil_append, List.mem_append] at member
      rcases member with here | later
      · rcases Lexeme.lexemeDiagnostics_cases fits (p.after (gapText gap)) rest.text with
          ⟨-, none_⟩ | ⟨-, c, unknown⟩ | ⟨-, -, extra⟩
        · rw [none_] at here
          cases here
        · rw [unknown, List.mem_singleton] at here
          rw [here] at point
          exact absurd point (show "unknown-character" ≠ "extra-decimal-point" by decide)
        · rw [extra, List.mem_singleton] at here
          rw [here] at same
          have place : (p.after (gapText gap)).after l.text = p := same
          rw [place] at strict
          exact strict.irrefl
      · apply not_before_of_mem exact_ later
        rw [same]
        exact strict

end Tiling

theorem Cursor.not_reached_of_mem {c : Cursor} {d : Diagnostic} (member : d ∈ c.run.2) :
    ¬ d.Reached c.position := by
  obtain ⟨rest, p⟩ := c
  obtain ⟨L, rfl, exact_⟩ := Tiling.exists_exact rest
  rw [Tiling.run_text exact_] at member
  exact Tiling.not_reached_of_mem exact_ member

/-- A turn that gives a token ends behind it, and has reached all that it finds. -/
theorem Cursor.turn_token {c after : Cursor} {t : Token} {found : List Diagnostic}
    (turn : c.turn = .token t found after) :
    c.position.Before after.position ∧ (∀ ts, Token.stop (ts ++ [t]) = after.position) ∧
      ∀ d ∈ found, d.Reached after.position := by
  rcases c.turn_cases with ⟨gap, -, -, finish⟩ | ⟨gap, l, rest, -, isGap, fits, token⟩
  · rw [finish] at turn
    cases turn
  · have noFeed : '\n' ∉ l.text := fun feed => absurd (fits.not_isBlank _ feed) (by decide)
    have more : l.text ++ rest ≠ [] := by simp [fits.ne_nil]
    rw [token, Tiling.gapDiagnostics_eq_nil isGap more, List.nil_append] at turn
    obtain ⟨rfl, rfl, rfl⟩ := Turn.token.inj turn
    refine ⟨?_, Token.stop_located noFeed _, ?_⟩
    · dsimp only
      rw [← Position.after_append]
      exact Position.before_after (by simp [fits.ne_nil]) c.position
    · intro d member
      rcases Lexeme.lexemeDiagnostics_cases fits (c.position.after (gapText gap)) rest with
        ⟨-, none_⟩ | ⟨-, c, unknown⟩ | ⟨-, -, extra⟩
      · rw [none_] at member
        cases member
      · rw [unknown, List.mem_singleton] at member
        rw [member]
        exact .inl (Position.before_after fits.ne_nil _)
      · rw [extra, List.mem_singleton] at member
        rw [member]
        exact .inr ⟨rfl, rfl⟩

/-! ### Sessions -/

/-- The scanner stands at the end of the last of the tokens, and has reached all that it found. -/
structure Scanner.Keeps (ts : List Token) (s : Scanner) : Prop where
  place : s.cursor.position = Token.stop ts
  told : ∀ d ∈ s.found, d.Reached s.cursor.position

theorem Scanner.keeps_ofSource (source : String) : (Scanner.ofSource source).Keeps [] :=
  ⟨rfl, List.forall_mem_nil _⟩

theorem Scanner.Keeps.turn {s : Scanner} {ts : List Token} {t : Token} {found : List Diagnostic}
    {after : Cursor} (keeps : s.Keeps ts) (turn : s.cursor.turn = .token t found after) :
    Scanner.Keeps (ts ++ [t]) ⟨after, s.found ++ found⟩ := by
  obtain ⟨strict, place, reached⟩ := Cursor.turn_token turn
  refine ⟨(place ts).symm, List.forall_mem_append.mpr ⟨fun d member => ?_, reached⟩⟩
  rcases keeps.told d member with before | ⟨-, same⟩
  · exact .inl (before.trans strict)
  · exact .inl (same ▸ strict)

/-- What has been found is what the whole scan finds as far as it has been reached. -/
theorem Scanner.Keeps.found_eq {s : Scanner} {ts : List Token} (keeps : s.Keeps ts) :
    s.found = s.total.filter (Diagnostic.Reached (Token.stop ts)) := by
  have here : s.found.filter (Diagnostic.Reached (Token.stop ts)) = s.found := by
    refine List.filter_eq_self.mpr fun d member => decide_eq_true ?_
    rw [← keeps.place]
    exact keeps.told d member
  have later : s.cursor.run.2.filter (Diagnostic.Reached (Token.stop ts)) = [] := by
    refine List.filter_eq_nil_iff.mpr fun d member reached => ?_
    rw [decide_eq_true_eq, ← keeps.place] at reached
    exact Cursor.not_reached_of_mem member reached
  rw [Scanner.total, List.filter_append, here, later, List.append_nil]

namespace Session

variable {sources : List String} {events : List Event} {n : Nat} {scanner : Scanner}

/-- Nothing is delivered from a scanner before it is there. -/
theorem delivered_of_missing {s : Session} (missing : (s.run events).1.scanners[n]? = none) :
    s.delivered n events = [] := by
  induction events using List.reverseRecOn with
  | nil => rfl
  | append_singleton es e ih =>
    rw [run_append] at missing
    cases there : (s.run es).1.scanners[n]? with
    | none => rw [delivered_snoc, ih there, (idle_of_missing there e).1, List.nil_append]
    | some scanner =>
      obtain ⟨after, kept, -⟩ := step_moves e there
      cases kept.symm.trans missing

/-- A scanner that an event creates is a fresh one and the last. -/
theorem exists_ofSource {s : Session} {e : Event} (missing : s.scanners[n]? = none)
    (there : (s.step e).1.scanners[n]? = some scanner) :
    ∃ source, created s.sources e = some source ∧ n = s.scanners.length ∧
      scanner = .ofSource source := by
  have beyond := List.getElem?_eq_none_iff.mp missing
  cases made : created s.sources e with
  | none =>
    rw [← length_step_scanners made] at beyond
    rw [List.getElem?_eq_none beyond] at there
    cases there
  | some source =>
    cases e with
    | iterate m =>
      have last : [Scanner.ofSource (s.sources.getD m "")][n - s.scanners.length]? = some scanner :=
        (List.getElem?_append_right beyond).symm.trans there
      obtain ⟨inside, -⟩ := List.getElem?_eq_some_iff.mp last
      rw [List.length_singleton] at inside
      obtain rfl := List.mem_singleton.mp (List.mem_of_getElem? last)
      obtain rfl := Option.some.inj made
      exact ⟨_, rfl, by omega, rfl⟩
    | _ => cases made

theorem keeps_of_unfinished (there : ((start sources).run events).1.scanners[n]? = some scanner)
    (unfinished : ¬ (start sources).Finished n events) :
    scanner.Keeps ((start sources).delivered n events) := by
  induction events using List.reverseRecOn generalizing scanner with
  | nil =>
    obtain ⟨source, -, rfl⟩ := List.exists_of_mem_map (List.mem_of_getElem? there)
    exact Scanner.keeps_ofSource source
  | append_singleton es e ih =>
    rw [finished_snoc, not_or] at unfinished
    rw [run_append] at there
    rw [delivered_snoc]
    cases before : ((start sources).run es).1.scanners[n]? with
    | some old =>
      have keeps := ih before unfinished.1
      obtain ⟨after, kept, stage⟩ := step_scanner before e
      obtain rfl := Option.some.inj (kept.symm.trans there)
      cases stage with
      | rests quiet => rwa [quiet, List.append_nil]
      | gives turn given =>
        rw [given]
        exact keeps.turn turn
      | ends runs => exact absurd runs unfinished.2
    | none =>
      obtain ⟨source, -, -, rfl⟩ := exists_ofSource before there
      rw [delivered_of_missing before, (idle_of_missing before e).1, List.append_nil]
      exact Scanner.keeps_ofSource source

/-- At any moment the diagnostics of a scanner are the first of its source. While none of its
readers has run to its end, they are those in front of the cursor, which is the end of the last
token, and a second decimal point at the cursor. -/
theorem found_of_source {source : String} (origin : (origins sources events)[n]? = some source) :
    ∃ scanner, ((start sources).run events).1.scanners[n]? = some scanner ∧
      scanner.found <+: (scan source).2 ∧
      (¬ (start sources).Finished n events →
        scanner.cursor.position = Token.stop ((start sources).delivered n events) ∧
        scanner.found = (scan source).2.filter
          (Diagnostic.Reached (Token.stop ((start sources).delivered n events)))) := by
  obtain ⟨scanner, there, moves, -⟩ := exists_scanner origin
  have total : scanner.total = (scan source).2 := moves.total
  refine ⟨scanner, there, ⟨_, total⟩, fun unfinished => ?_⟩
  have keeps := keeps_of_unfinished there unfinished
  rw [← total]
  exact ⟨keeps.place, keeps.found_eq⟩

end Session

end ExprLexer
