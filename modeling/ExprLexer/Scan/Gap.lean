import ExprLexer.Text.Blank

/-!
# Gaps

Blank characters and comments stand between lexemes. A gap is read as the list of its fillers,
whose texts concatenate to what the gap covers (`gapText_gap`).
-/

namespace ExprLexer

inductive Filler where
  | blank (c : Char)
  /-- Two slashes and the rest of the line, without its line feed. -/
  | lineComment (body : List Char)
  | blockComment (body : List Char)
  /-- A block comment that the source does not close. -/
  | openComment (body : List Char)
  deriving DecidableEq, Repr

def Filler.text : Filler → List Char
  | blank c => [c]
  | lineComment body => '/' :: '/' :: body
  | blockComment body => '/' :: '*' :: (body ++ ['*', '/'])
  | openComment body => '/' :: '*' :: body

def gapText (fs : List Filler) : List Char := fs.flatMap Filler.text

/-- The body of a block comment and what follows its closing mark. -/
def closeComment : List Char → Option (List Char × List Char)
  | [] => none
  | c :: rest =>
    match c, rest with
    | '*', '/' :: after => some ([], after)
    | c, rest => (closeComment rest).map fun (body, after) => (c :: body, after)

/-- The filler at the front of the source and what follows it. -/
def filler? : List Char → Option (Filler × List Char)
  | '/' :: '/' :: rest =>
    some (.lineComment (rest.takeWhile (· ≠ '\n')), rest.dropWhile (· ≠ '\n'))
  | '/' :: '*' :: rest =>
    match closeComment rest with
    | some (body, after) => some (.blockComment body, after)
    | none => some (.openComment rest, [])
  | c :: rest => if Text.isBlank c then some (.blank c, rest) else none
  | [] => none

theorem closeComment_eq {s body after : List Char} (h : closeComment s = some (body, after)) :
    s = body ++ '*' :: '/' :: after := by
  fun_induction closeComment s generalizing body after with
  | case1 => simp at h
  | case2 after' => simp_all
  | case3 c rest hne ih =>
    obtain ⟨⟨b, a⟩, hb, he⟩ := Option.map_eq_some_iff.1 h
    simp only [Prod.mk.injEq] at he
    obtain ⟨rfl, rfl⟩ := he
    simp [ih hb]

theorem filler?_eq {s rest : List Char} {f : Filler} (h : filler? s = some (f, rest)) :
    s = f.text ++ rest := by
  unfold filler? at h
  split at h
  · simp only [Option.some.injEq, Prod.mk.injEq] at h
    obtain ⟨rfl, rfl⟩ := h
    simp [Filler.text, List.takeWhile_append_dropWhile]
  · split at h
    · next hc =>
      simp only [Option.some.injEq, Prod.mk.injEq] at h
      obtain ⟨rfl, rfl⟩ := h
      simp [Filler.text, closeComment_eq hc]
    · simp only [Option.some.injEq, Prod.mk.injEq] at h
      obtain ⟨rfl, rfl⟩ := h
      simp [Filler.text]
  · split at h
    · simp only [Option.some.injEq, Prod.mk.injEq] at h
      obtain ⟨rfl, rfl⟩ := h
      rfl
    · simp at h
  · simp at h

theorem Filler.text_ne_nil (f : Filler) : f.text ≠ [] := by cases f <;> simp [Filler.text]

theorem length_lt_of_filler? {s rest : List Char} {f : Filler} (h : filler? s = some (f, rest)) :
    rest.length < s.length := by
  have := List.length_pos_iff.2 f.text_ne_nil
  rw [filler?_eq h, List.length_append]
  omega

def gap (s : List Char) : List Filler × List Char :=
  match _h : filler? s with
  | some (f, rest) =>
    let (fs, after) := gap rest
    (f :: fs, after)
  | none => ([], s)
termination_by s.length
decreasing_by exact length_lt_of_filler? ‹_›

theorem gapText_gap (s : List Char) : gapText (gap s).1 ++ (gap s).2 = s := by
  fun_induction gap s with
  | case1 s f rest h fs after hg ih =>
    rw [hg] at ih
    simp only [gapText, List.flatMap_cons, List.append_assoc] at ih ⊢
    rw [ih, filler?_eq h]
  | case2 s h => rfl

end ExprLexer
