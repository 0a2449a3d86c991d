import Mathlib.Data.List.Induction
import Mathlib.Data.List.TakeWhile
import ExprLexer.Command.Request

/-!
# Arguments of a scan

A command line of a scan is a list of arguments, each written as one or two words. Reading the words
gives the options that the last argument of each kind sets (`ofArguments_spelled`).
-/

namespace ExprLexer.Command

/-- What an argument of a scan asks for. -/
inductive ScanArgument where
  | file (name : String)
  | format (f : Format)
  | color (on : Bool)
  | strict
  | quiet
  | encoding (name : String)
  | config (path : String)
  deriving DecidableEq, Repr

namespace ScanArgument

/-- How an argument is written: as an operand, or as a switch with or without a text. -/
inductive Form where
  | operand (name : String)
  | mark (switch : String)
  | store (switch text : String)

def form : ScanArgument → Form
  | file name => .operand name
  | format f => .store "--format" f.name
  | color on => .mark (if on then "--color" else "--no-color")
  | strict => .mark "--strict"
  | quiet => .mark "--no-diagnostics"
  | encoding name => .store "--encoding" name
  | config path => .store "--config" path

def IsPlain (word : String) : Prop := word.toList.head? ≠ some '-'

instance (word : String) : Decidable (IsPlain word) :=
  inferInstanceAs (Decidable (word.toList.head? ≠ some '-'))

/-- The words that write a form, with the switch by its full name. -/
inductive Form.Spells : Form → List String → Prop
  | operand {name : String} (plain : name = "-" ∨ IsPlain name) : Spells (.operand name) [name]
  | mark {switch : String} : Spells (.mark switch) [switch]
  | attached {switch text : String} : Spells (.store switch text) [switch ++ "=" ++ text]
  | apart {switch text : String} (plain : IsPlain text) :
      Spells (.store switch text) [switch, text]

inductive Spelled : List ScanArgument → List String → Prop
  | nil : Spelled [] []
  | cons {a : ScanArgument} {as : List ScanArgument} {ws words : List String}
      (first : a.form.Spells ws) (later : Spelled as words) : Spelled (a :: as) (ws ++ words)

/-! ### The last argument of a kind -/

def file? : ScanArgument → Option String
  | file name => some name
  | _ => none

def format? : ScanArgument → Option Format
  | format f => some f
  | _ => none

def color? : ScanArgument → Option Bool
  | color on => some on
  | _ => none

def encoding? : ScanArgument → Option String
  | encoding name => some name
  | _ => none

def config? : ScanArgument → Option String
  | config path => some path
  | _ => none

def last? (kind? : ScanArgument → Option α) (as : List ScanArgument) : Option α :=
  (as.filterMap kind?).getLast?

def strict? (as : List ScanArgument) : Option Bool := if strict ∈ as then some true else none

def showDiagnostics? (as : List ScanArgument) : Option Bool :=
  if quiet ∈ as then some false else none

/-- The options that arguments come to, each by the last argument that sets it. -/
def options (as : List ScanArgument) : ScanOptions where
  overrides :=
    { outputFormat := last? format? as
      color := last? color? as
      strict := strict? as
      showDiagnostics := showDiagnostics? as
      encoding := (last? encoding? as).map .ofString }
  config := (last? config? as).map Path.ofString
  file := (last? file? as).getD ""

/-- The options with one more argument. -/
def apply (o : ScanOptions) : ScanArgument → ScanOptions
  | file name => { o with file := name }
  | format f => { o with overrides.outputFormat := some f }
  | color on => setColor on o
  | strict => beStrict o
  | quiet => hideDiagnostics o
  | encoding name => { o with overrides.encoding := some (.ofString name) }
  | config path => { o with config := some (Path.ofString path) }

theorem last?_concat (kind? : ScanArgument → Option α) (as : List ScanArgument) (a : ScanArgument) :
    last? kind? (as ++ [a]) = (kind? a).or (last? kind? as) := by
  unfold last?
  cases found : kind? a <;> simp [found]

theorem foldl_apply (as : List ScanArgument) : as.foldl apply {} = options as := by
  induction as using List.reverseRecOn with
  | nil => rfl
  | append_singleton as a ih =>
    rw [List.foldl_append, ih]
    cases a <;>
      simp [apply, options, last?_concat, strict?, showDiagnostics?, file?,
        format?, color?, encoding?, config?, setColor, beStrict, hideDiagnostics]

end ScanArgument

/-! ### Words -/

section

variable {switches : List (Switch σ)} {s : Switch σ} {name text word : String}

/-- The name of a long switch. -/
def IsLong (name : String) : Prop := ['-', '-'] <+: name.toList ∧ '=' ∉ name.toList

/-- Switches are found by their names up to an equals sign. -/
def Plainly (switches : List (Switch σ)) : Prop := ∀ s ∈ switches, '=' ∉ s.name.toList

theorem toList_attached (name text : String) :
    (name ++ "=" ++ text).toList = name.toList ++ '=' :: text.toList := by
  rw [String.toList_append, String.toList_append, List.append_assoc]
  rfl

theorem splitEquals_of_not_mem {cs : List Char} (noEquals : '=' ∉ cs) :
    splitEquals cs = (cs, none) := by
  have nothing : cs.dropWhile (· ≠ '=') = [] :=
    List.dropWhile_eq_nil_iff.mpr fun c member =>
      decide_eq_true fun same => noEquals (same ▸ member)
  rw [splitEquals, nothing]

theorem splitEquals_attached {stem : List Char} (noEquals : '=' ∉ stem) (cs : List Char) :
    splitEquals (stem ++ '=' :: cs) = (stem, some ('=' :: cs)) := by
  have inside : ∀ c ∈ stem, decide (c ≠ '=') = true :=
    fun c member => decide_eq_true fun same => noEquals (same ▸ member)
  rw [splitEquals, List.dropWhile_append_of_pos inside, List.takeWhile_append_of_pos inside]
  simp

theorem findSwitch?_equals (plainly : Plainly switches) {cs : List Char} (equals : '=' ∈ cs) :
    findSwitch? switches cs = none := by
  refine List.find?_eq_none.mpr fun s member same => plainly s member ?_
  rw [of_decide_eq_true same]
  exact equals

theorem readArgument_plain (plain : ScanArgument.IsPlain text) :
    readArgument switches text = .ok .operand := by
  unfold readArgument
  exact if_pos plain

theorem readArgument_name (long : IsLong name) (found : findSwitch? switches name.toList = some s) :
    readArgument switches name = .ok (.switch s none) := by
  obtain ⟨⟨cs, dashes⟩, -⟩ := long
  unfold readArgument
  rw [if_neg (by simp [← dashes]), found]

theorem readArgument_attached (plainly : Plainly switches) (long : IsLong name)
    (found : findSwitch? switches name.toList = some s) :
    readArgument switches (name ++ "=" ++ text) =
      .ok (.switch s (some ('=' :: text.toList))) := by
  obtain ⟨⟨cs, dashes⟩, noEquals⟩ := long
  have whole : findSwitch? switches (name.toList ++ '=' :: text.toList) = none :=
    findSwitch?_equals plainly (by simp)
  unfold readArgument
  dsimp only
  rw [toList_attached, whole, splitEquals_attached noEquals, if_neg (by simp [← dashes]),
    if_neg (by simp [← dashes])]
  dsimp only
  rw [found]

/-- A switch that only another command has is read without an error. -/
theorem exists_readArgument (dashes : ['-', '-'] <+: word.toList)
    (foreign : ∀ s ∈ switches, ¬ (splitEquals word.toList).1 <+: s.name.toList) :
    ∃ r, readArgument switches word = .ok r := by
  have none_ : candidates switches word.toList = [] := by
    obtain ⟨cs, dashes⟩ := dashes
    rw [← dashes] at foreign ⊢
    refine List.map_eq_nil_iff.mpr (List.filter_eq_nil_iff.mpr fun s member begins => ?_)
    exact foreign s member (List.isPrefixOf_iff_prefix.mp begins)
  have dashed : ∃ r, readDashed switches word = .ok r := by
    unfold readDashed
    dsimp only
    rw [none_]
    exact ⟨_, rfl⟩
  unfold readArgument
  dsimp only
  split
  · exact ⟨_, rfl⟩
  split
  · exact ⟨_, rfl⟩
  split
  · exact ⟨_, rfl⟩
  split
  · split
    · exact ⟨_, rfl⟩
    · exact dashed
  · exact dashed

theorem exists_words {ws : List String}
    (reads : ∀ w ∈ ws, ∃ r, readArgument switches w = .ok r) :
    ∃ vs, words switches ws = .ok vs ∧ vs.map Word.text = ws := by
  induction ws with
  | nil => exact ⟨[], rfl, rfl⟩
  | cons w ws ih =>
    obtain ⟨⟨r, read⟩, later⟩ := List.forall_mem_cons.mp reads
    obtain ⟨vs, found, texts⟩ := ih later
    rw [words]
    split
    · exact ⟨_, rfl, by simp [Function.comp_def]⟩
    · rw [read, found]
      exact ⟨_, rfl, by simp [texts]⟩

theorem words_cons {w : String} {ws : List String} {r : Reading σ} {vs : List (Word σ)}
    (other : w ≠ "--") (read : readArgument switches w = .ok r)
    (later : words switches ws = .ok vs) : words switches (w :: ws) = .ok (⟨w, r⟩ :: vs) := by
  rw [words, if_neg other, read, later]
  rfl

end

/-! ### Reading -/

namespace Grammar

variable {g : Grammar σ} {p : Progress σ} {s : Switch σ} {set : σ → σ}
  {store : String → σ → Except UsageError σ} {options : σ} {w text : String}
  {rest : List (Word σ)}

theorem read_mark (action : s.action = .mark set) :
    g.read p (⟨w, .switch s none⟩ :: rest) = g.read { p with options := set p.options } rest := by
  rw [read]
  simp only [action, Progress.act]
  rfl

theorem read_attached (action : s.action = .store store)
    (stored : store text p.options = .ok options) :
    g.read p (⟨w, .switch s (some ('=' :: text.toList))⟩ :: rest) =
      g.read { p with options } rest := by
  rw [read]
  simp only [action, Progress.attach, attachedText, String.ofList_toList, stored, Progress.update]
  rfl

theorem read_apart (action : s.action = .store store)
    (stored : store text p.options = .ok options) :
    g.read p (⟨w, .switch s none⟩ :: ⟨text, .operand⟩ :: rest) =
      g.read { p with options } rest := by
  rw [read]
  simp only [action, stored, Progress.update]
  rfl

theorem read_operand {label : String} {set : String → σ → σ}
    (operands : g.operands = .one label set) (empty : p.filled = false)
    (noSeparator : startsWithSeparator rest = false) :
    g.read p (⟨w, .operand⟩ :: rest) =
      g.read { p with options := set w p.options, filled := true } rest := by
  rw [read]
  simp only [operands, empty, noSeparator]
  rfl

end Grammar

/-! ### Arguments -/

namespace ScanArgument

/-- The name of the switch that a form is written with. -/
def Form.switch? : Form → Option String
  | operand _ => none
  | mark switch | store switch _ => some switch

theorem switch_long (a : ScanArgument) : ∀ name ∈ a.form.switch?,
    IsLong name ∧ ∀ s ∈ mainGrammar.switches, ¬ name.toList <+: s.name.toList := by
  intro name member
  cases a with
  | file => cases member
  | color on =>
    obtain rfl := Option.some.inj member
    cases on <;> exact ⟨⟨by decide, by decide⟩, by decide⟩
  | _ =>
    obtain rfl := Option.some.inj member
    exact ⟨⟨by decide, by decide⟩, by decide⟩

/-- The switches of a scan do what the arguments ask for. -/
theorem mark_found {a : ScanArgument} {switch : String} (form : a.form = .mark switch) :
    a.file? = none ∧ ∃ label set, findSwitch? scanGrammar.switches switch.toList =
      some ⟨switch, label, .mark set⟩ ∧ ∀ o, set o = a.apply o := by
  cases a with
  | color on =>
    obtain rfl := Form.mark.inj form
    cases on <;> exact ⟨rfl, _, _, rfl, fun o => rfl⟩
  | strict =>
    obtain rfl := Form.mark.inj form
    exact ⟨rfl, _, _, rfl, fun o => rfl⟩
  | quiet =>
    obtain rfl := Form.mark.inj form
    exact ⟨rfl, _, _, rfl, fun o => rfl⟩
  | _ => cases form

theorem store_found {a : ScanArgument} {switch text : String}
    (form : a.form = .store switch text) :
    a.file? = none ∧ ∃ label store, findSwitch? scanGrammar.switches switch.toList =
      some ⟨switch, label, .store store⟩ ∧ ∀ o, store text o = .ok (a.apply o) := by
  cases a with
  | format f =>
    obtain ⟨rfl, rfl⟩ := Form.store.inj form
    refine ⟨rfl, _, _, rfl, fun o => ?_⟩
    cases f <;> rfl
  | encoding name =>
    obtain ⟨rfl, rfl⟩ := Form.store.inj form
    exact ⟨rfl, _, _, rfl, fun o => rfl⟩
  | config path =>
    obtain ⟨rfl, rfl⟩ := Form.store.inj form
    exact ⟨rfl, _, _, rfl, fun o => rfl⟩
  | _ => cases form

theorem operand_eq {a : ScanArgument} {name : String} (form : a.form = .operand name) :
    a = .file name := by
  cases a with
  | file => rw [Form.operand.inj form]
  | _ => cases form

end ScanArgument

def Progress.take (p : Progress ScanOptions) (a : ScanArgument) : Progress ScanOptions :=
  { p with options := a.apply p.options, filled := p.filled || a.file?.isSome }

/-- The words `ws` are read as `vs`, which act as the argument. -/
structure ReadsAs (a : ScanArgument) (ws : List String) (vs : List (Word ScanOptions)) : Prop where
  words : ∀ {later us}, words scanGrammar.switches later = .ok us →
    words scanGrammar.switches (ws ++ later) = .ok (vs ++ us)
  noSeparator : ∀ us, startsWithSeparator (vs ++ us) = false
  read : ∀ {p : Progress ScanOptions} {rest}, (a.file?.isSome → p.filled = false) →
    startsWithSeparator rest = false →
      scanGrammar.read p (vs ++ rest) = scanGrammar.read (p.take a) rest

theorem plainly_scan : Plainly scanGrammar.switches := by
  unfold Plainly
  decide

theorem ne_separator_of_plain {text : String} (plain : ScanArgument.IsPlain text) :
    text ≠ "--" := by
  rintro rfl
  exact plain rfl

theorem ne_separator_of_found {name : String} {s : Switch ScanOptions}
    (found : findSwitch? scanGrammar.switches name.toList = some s) : name ≠ "--" := by
  rintro rfl
  cases found

theorem ne_separator_of_equals {name text : String} : name ++ "=" ++ text ≠ "--" := by
  intro same
  have letters := toList_attached name text
  rw [same] at letters
  have equals : '=' ∈ "--".toList := letters ▸ by simp
  revert equals
  decide

/-- What is no operand leaves open whether there is one. -/
theorem Progress.take_switch (p : Progress ScanOptions) {a : ScanArgument}
    (switch : a.file? = none) : p.take a = { p with options := a.apply p.options } := by
  rw [take, switch, Option.isSome_none, Bool.or_false]

theorem Progress.take_file (p : Progress ScanOptions) (name : String) :
    p.take (.file name) = { p with options.file := name, filled := true } := by
  rw [take, ScanArgument.file?, Option.isSome_some, Bool.or_true, ScanArgument.apply]

theorem exists_readsAs {a : ScanArgument} {ws : List String} (spells : a.form.Spells ws) :
    ∃ vs, ReadsAs a ws vs := by
  have long := a.switch_long
  generalize form : a.form = f at spells long
  cases spells with
  | @operand name plain =>
    obtain rfl := ScanArgument.operand_eq form
    have read : readArgument scanGrammar.switches name = .ok .operand := by
      rcases plain with rfl | plain
      · rfl
      · exact readArgument_plain plain
    have other : name ≠ "--" := by
      rcases plain with rfl | plain
      · decide
      · exact ne_separator_of_plain plain
    refine ⟨[⟨name, .operand⟩], words_cons other read, fun us => rfl, fun {p rest} empty last => ?_⟩
    have operands : scanGrammar.operands = .one "file" fun file o => { o with file } := rfl
    rw [p.take_file]
    exact Grammar.read_operand operands (empty rfl) last
  | @mark switch =>
    obtain ⟨other, label, set, found, acts⟩ := ScanArgument.mark_found form
    obtain ⟨long, -⟩ := long _ rfl
    refine ⟨[⟨switch, .switch _ none⟩], words_cons (ne_separator_of_found found)
      (readArgument_name long found), fun us => rfl, fun {p rest} _ _ => ?_⟩
    rw [p.take_switch other, ← acts]
    exact Grammar.read_mark rfl
  | @attached switch text =>
    obtain ⟨other, label, store, found, stored⟩ := ScanArgument.store_found form
    obtain ⟨long, -⟩ := long _ rfl
    refine ⟨[⟨switch ++ "=" ++ text, .switch _ (some ('=' :: text.toList))⟩],
      words_cons ne_separator_of_equals (readArgument_attached plainly_scan long found),
      fun us => rfl, fun {p rest} _ _ => ?_⟩
    rw [p.take_switch other]
    exact Grammar.read_attached rfl (stored p.options)
  | @apart switch text plain =>
    obtain ⟨other, label, store, found, stored⟩ := ScanArgument.store_found form
    obtain ⟨long, -⟩ := long _ rfl
    refine ⟨[⟨switch, .switch ⟨switch, label, .store store⟩ none⟩, ⟨text, .operand⟩],
      fun {later us} rest => ?_, fun us => rfl, fun {p rest} _ _ => ?_⟩
    · exact words_cons (ne_separator_of_found found) (readArgument_name long found)
        (words_cons (ne_separator_of_plain plain) (readArgument_plain plain) rest)
    · rw [p.take_switch other]
      exact Grammar.read_apart rfl (stored p.options)

/-- There is at most one operand, and none if there was one before. -/
def Progress.OnceMore (p : Progress ScanOptions) (as : List ScanArgument) : Prop :=
  p.filled.toNat + (as.filterMap ScanArgument.file?).length ≤ 1

theorem Progress.OnceMore.step {p : Progress ScanOptions} {a : ScanArgument}
    {as : List ScanArgument} (once : p.OnceMore (a :: as)) :
    (a.file?.isSome → p.filled = false) ∧ (p.take a).OnceMore as := by
  unfold OnceMore at *
  rw [List.filterMap_cons] at once
  rw [take]
  cases operand : a.file? with
  | none => simpa [operand] using once
  | some name =>
    rw [operand, List.length_cons] at once
    cases filled : p.filled with
    | false =>
      rw [filled, Bool.toNat_false] at once
      refine ⟨fun _ => rfl, ?_⟩
      rw [Option.isSome_some, Bool.or_true, Bool.toNat_true]
      omega
    | true =>
      rw [filled, Bool.toNat_true] at once
      omega

/-- Words that spell arguments are read as these, one after the other. -/
theorem read_spelled {as : List ScanArgument} {ws : List String}
    (spelled : ScanArgument.Spelled as ws) :
    ∃ vs, words scanGrammar.switches ws = .ok vs ∧ startsWithSeparator vs = false ∧
      ∀ p : Progress ScanOptions, p.OnceMore as →
        scanGrammar.read p vs = .ok (as.foldl Progress.take p) := by
  induction spelled with
  | nil => exact ⟨[], rfl, rfl, fun p _ => rfl⟩
  | @cons a as ws later first _ ih =>
    obtain ⟨vs, reads⟩ := exists_readsAs first
    obtain ⟨us, found, noSeparator, read⟩ := ih
    refine ⟨vs ++ us, reads.words found, reads.noSeparator us, fun p once => ?_⟩
    obtain ⟨empty, once⟩ := once.step
    rw [reads.read empty noSeparator, read _ once, List.foldl_cons]

theorem foldl_take (as : List ScanArgument) (p : Progress ScanOptions) :
    as.foldl Progress.take p =
      { p with
        options := as.foldl ScanArgument.apply p.options
        filled := p.filled || as.any (·.file?.isSome) } := by
  induction as generalizing p with
  | nil => simp
  | cons a as ih => simp [ih, Progress.take, Bool.or_assoc]

/-! ### Command lines -/

/-- The command line of a scan, where the words `ws` follow the command. -/
def scanLine (verbose : Bool) (ws : List String) : List String :=
  (if verbose then ["-v"] else []) ++ "scan" :: ws

theorem parse_scanLine {ws : List String} (verbose : Bool)
    (reads : ∀ w ∈ ws, ∃ r, readArgument mainGrammar.switches w = .ok r) :
    mainGrammar.parse {} (scanLine verbose ws) =
      .ok ({ verbose, command := some (.scan, ws) }, []) := by
  obtain ⟨vs, found, rfl⟩ := exists_words reads
  have command : words mainGrammar.switches ("scan" :: vs.map Word.text) =
      .ok (⟨"scan", .operand⟩ :: vs) := words_cons (by decide) (by rfl) found
  have read (o : MainOptions) : mainGrammar.read { options := o } (⟨"scan", .operand⟩ :: vs) =
      .ok { options := { o with command := some (.scan, vs.map Word.text) } } := by
    rw [Grammar.read]
    rfl
  cases verbose with
  | false =>
    change mainGrammar.parse {} ("scan" :: vs.map Word.text) = _
    rw [Grammar.parse, command]
    dsimp only
    rw [read]
    rfl
  | true =>
    have line : words mainGrammar.switches ("-v" :: "scan" :: vs.map Word.text) =
        .ok (⟨"-v", .switch ⟨"-v", "-v/--verbose", .mark beVerbose⟩ none⟩ ::
          ⟨"scan", .operand⟩ :: vs) :=
      words_cons (by decide) (by rfl) command
    change mainGrammar.parse {} ("-v" :: "scan" :: vs.map Word.text) = _
    rw [Grammar.parse, line]
    dsimp only
    rw [Grammar.read_mark rfl, read]
    rfl

theorem readArgument_main {f : ScanArgument.Form} {ws : List String} {w : String}
    (long : ∀ name ∈ f.switch?,
      IsLong name ∧ ∀ s ∈ mainGrammar.switches, ¬ name.toList <+: s.name.toList)
    (spells : f.Spells ws) (member : w ∈ ws) :
    ∃ r, readArgument mainGrammar.switches w = .ok r := by
  cases spells with
  | operand plain =>
    obtain rfl := List.mem_singleton.mp member
    rcases plain with rfl | plain
    · exact ⟨_, rfl⟩
    · exact ⟨_, readArgument_plain plain⟩
  | mark =>
    obtain rfl := List.mem_singleton.mp member
    obtain ⟨⟨dashes, noEquals⟩, foreign⟩ := long _ rfl
    exact exists_readArgument dashes (by rwa [splitEquals_of_not_mem noEquals])
  | @attached switch text =>
    obtain rfl := List.mem_singleton.mp member
    obtain ⟨⟨dashes, noEquals⟩, foreign⟩ := long _ rfl
    apply exists_readArgument
    · rw [toList_attached]
      exact dashes.trans (List.prefix_append _ _)
    · rwa [toList_attached, splitEquals_attached noEquals]
  | @apart switch text plain =>
    obtain ⟨⟨dashes, noEquals⟩, foreign⟩ := long _ rfl
    rcases List.mem_cons.mp member with rfl | later
    · exact exists_readArgument dashes (by rwa [splitEquals_of_not_mem noEquals])
    · obtain rfl := List.mem_singleton.mp later
      exact ⟨_, readArgument_plain plain⟩

/-- A line of arguments of which one is an operand asks for a scan, with the options that the last
argument of each kind sets. -/
theorem ofArguments_spelled {as : List ScanArgument} {ws : List String} {name : String}
    (spelled : ScanArgument.Spelled as ws) (one : as.filterMap ScanArgument.file? = [name])
    (verbose : Bool) :
    Request.ofArguments (scanLine verbose ws) = .scan verbose (ScanArgument.options as) := by
  have reads : ∀ w ∈ ws, ∃ r, readArgument mainGrammar.switches w = .ok r := by
    clear one
    induction spelled with
    | nil => nofun
    | @cons a as ws later first _ ih =>
      exact List.forall_mem_append.mpr ⟨fun w => readArgument_main a.switch_long first, ih⟩
  obtain ⟨vs, found, -, read⟩ := read_spelled spelled
  have whole := read { options := {} } (by simp [Progress.OnceMore, one])
  rw [foldl_take, ScanArgument.foldl_apply] at whole
  have parsed : scanGrammar.parse {} ws = .ok (ScanArgument.options as, []) := by
    rw [Grammar.parse, found]
    dsimp only
    rw [whole]
    have filled : as.any (·.file?.isSome) = true := by
      have member : name ∈ as.filterMap ScanArgument.file? := one ▸ List.mem_singleton_self name
      obtain ⟨a, member, named⟩ := List.mem_filterMap.mp member
      exact List.any_eq_true.mpr ⟨a, member, by rw [named]; rfl⟩
    rw [filled]
    rfl
  rw [Request.ofArguments, parse_scanLine verbose reads]
  dsimp only
  rw [parsed]
  rfl

end ExprLexer.Command
