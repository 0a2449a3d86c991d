import ExprLexer.Proofs.Yaml.Reading
import ExprLexer.Yaml.Node

/-!
# Faults of documents that cannot be read

Tokens add no fault of their own but that of malformed documents, and nodes only that of entangled
ones, which need an anchor (`readFault_of_ofTokens`).
-/

namespace ExprLexer.Yaml

variable {text : List Char}

/-- What a token tells of the text: a fault is one of reading it, and an anchor stands behind its
sign. -/
def Token.Sound (text : List Char) : Token → Prop
  | .fault f => ReadFault text f
  | .anchor _ => '&' ∈ text
  | _ => True

namespace Tokenizer

/-- The tokenizer stands in the text that its tokens are of. -/
structure Sound (text : List Char) (t : Tokenizer) : Prop where
  within : t.input.Within text
  tokens : ∀ token ∈ t.tokens, token.Sound text

abbrev Reads (text : List Char) (r : Except Fault Tokenizer) : Prop := Yields text (Sound text) r

variable {t : Tokenizer}

/-! ### Changes -/

theorem Sound.moved {u : Tokenizer} (sound : t.Sound text) (within : u.input.Within text)
    (same : u.tokens = t.tokens) : u.Sound text :=
  ⟨within, fun token member => sound.tokens token (same ▸ member)⟩

theorem Sound.push (sound : t.Sound text) {token : Token} (new : token.Sound text) :
    (t.push token).Sound text :=
  ⟨sound.within, List.forall_mem_cons.mpr ⟨new, sound.tokens⟩⟩

theorem Sound.insertAt (sound : t.Sound text) (n : Nat) {token : Token} (new : token.Sound text) :
    (t.insertAt n token).Sound text := by
  refine ⟨sound.within, List.forall_mem_append.mpr ⟨?_, List.forall_mem_cons.mpr ⟨new, ?_⟩⟩⟩
  · exact fun token member => sound.tokens token (List.mem_of_mem_take member)
  · exact fun token member => sound.tokens token (List.mem_of_mem_drop member)

theorem Sound.unwind (sound : t.Sound text) (column : Option Nat) :
    (t.unwind column).Sound text := by
  unfold Tokenizer.unwind
  split
  · exact sound
  · refine ⟨sound.within, List.forall_mem_append.mpr ⟨fun token member => ?_, sound.tokens⟩⟩
    obtain ⟨_, -, rfl⟩ := List.mem_map.mp member
    trivial

theorem Sound.indicator (sound : t.Sound text) (width : Nat) {token : Token}
    (new : token.Sound text) : (t.indicator width token).Sound text := by
  have moved : Sound text { t with input := t.input.skip width } :=
    sound.moved (sound.within.skip width) rfl
  exact moved.push new

theorem Sound.skipByteOrderMark (sound : t.Sound text) : t.skipByteOrderMark.Sound text := by
  unfold Tokenizer.skipByteOrderMark
  split
  · exact ⟨sound.within.step, sound.tokens⟩
  · exact sound

theorem Sound.skipSpace (sound : t.Sound text) (fuel : Nat) : (t.skipSpace fuel).Sound text := by
  induction fuel generalizing t with
  | zero => exact sound
  | succ fuel ih =>
    rw [Tokenizer.skipSpace]
    split
    · rename_i found
      exact ih (sound.moved (sound.within.skipComment.lineBreak? found) rfl)
    · exact sound.moved sound.within.skipComment rfl

/-! ### Candidates -/

theorem Sound.dropStale (sound : t.Sound text) : Reads text t.dropStale := by
  unfold Tokenizer.dropStale
  dsimp only
  split
  · exact .malformed
  · exact ⟨sound.within, sound.tokens⟩

theorem Sound.dropCandidate (sound : t.Sound text) : Reads text t.dropCandidate := by
  unfold Tokenizer.dropCandidate
  split
  · exact .malformed
  · exact ⟨sound.within, sound.tokens⟩

theorem Sound.saveCandidate (sound : t.Sound text) : Reads text t.saveCandidate := by
  unfold Tokenizer.saveCandidate
  split
  · have dropped := sound.dropCandidate
    split
    · exact dropped.of_error ‹_›
    · rename_i done
      have sound := dropped.of_ok done
      exact ⟨sound.within, sound.tokens⟩
  · exact sound

/-! ### Tokens -/

/-- What a token that is read ends with. -/
def EndsWithin (text : List Char) (r : Token × Input) : Prop :=
  r.2.Within text ∧ r.1.Sound text

theorem Sound.documentToken (sound : t.Sound text) {read : Except Fault (Token × Input)}
    (reads : Yields text (EndsWithin text) read) : Reads text (t.documentToken read) := by
  refine (sound.unwind none).dropCandidate.bind fun u sound => ?_
  refine reads.bind fun ⟨token, input⟩ ends => ?_
  refine .ok (.push ?_ ends.2)
  exact sound.moved ends.1 rfl

theorem Sound.starter (sound : t.Sound text) {read : Except Fault (Token × Input)}
    (reads : Yields text (EndsWithin text) read) : Reads text (t.starter read) := by
  refine sound.saveCandidate.bind fun u sound => ?_
  refine reads.bind fun ⟨token, input⟩ ends => ?_
  refine .ok (.push ?_ ends.2)
  exact sound.moved ends.1 rfl

theorem Sound.openFlow (sound : t.Sound text) {token : Token} (new : token.Sound text) :
    Reads text (t.openFlow token) := by
  refine sound.saveCandidate.bind fun u sound => .ok (.indicator ?_ 1 new)
  exact sound.moved sound.within rfl

theorem Sound.closeFlow (sound : t.Sound text) {token : Token} (new : token.Sound text) :
    Reads text (t.closeFlow token) := by
  refine sound.dropCandidate.bind fun u sound => .ok (.indicator ?_ 1 new)
  exact sound.moved sound.within rfl

theorem Sound.flowEntry (sound : t.Sound text) : Reads text t.flowEntry := by
  refine sound.dropCandidate.bind fun u sound => .ok (.indicator ?_ 1 trivial)
  exact sound.moved sound.within rfl

theorem Sound.openBlock (sound : t.Sound text) {token : Token} (new : token.Sound text) :
    Reads text (t.openBlock token) := by
  unfold Tokenizer.openBlock
  split
  · exact sound
  · split
    · exact .malformed
    · split
      · refine .ok (.push ?_ new)
        exact sound.moved sound.within rfl
      · exact sound

theorem Sound.blockEntry (sound : t.Sound text) : Reads text t.blockEntry := by
  have opened : Reads text (t.openBlock .blockSequenceStart) := sound.openBlock trivial
  refine opened.bind fun u sound => ?_
  have allowed : Sound text { u with keyAllowed := true } := sound.moved sound.within rfl
  exact allowed.dropCandidate.bind fun _ sound => sound.indicator 1 trivial

theorem Sound.key (sound : t.Sound text) : Reads text t.key := by
  have opened : Reads text (t.openBlock .blockMappingStart) := sound.openBlock trivial
  refine opened.bind fun u sound => ?_
  have allowed : Sound text { u with keyAllowed := !u.inFlow } := sound.moved sound.within rfl
  exact allowed.dropCandidate.bind fun _ sound => sound.indicator 1 trivial

theorem Sound.value (sound : t.Sound text) : Reads text t.value := by
  unfold Tokenizer.value
  split
  · rename_i c candidate
    have start : Sound text { t with candidate := none, keyAllowed := false } :=
      sound.moved sound.within rfl
    have keyed := start.insertAt c.number (show Token.key.Sound text from trivial)
    refine Sound.indicator ?_ 1 trivial
    split
    · refine .insertAt ?_ c.number trivial
      exact keyed.moved keyed.within rfl
    · exact keyed
  · have opened : Reads text (t.openBlock .blockMappingStart) := sound.openBlock trivial
    refine opened.bind fun u sound => ?_
    refine .ok (.indicator ?_ 1 trivial)
    exact sound.moved sound.within rfl

theorem Sound.quoted (sound : t.Sound text) (fuel : Nat) (double : Bool) :
    Reads text (t.quoted fuel double) :=
  sound.starter ((quotedScalar_yields double fuel sound.within.step).map
    fun _ within => ⟨within, trivial⟩)

theorem Sound.block (sound : t.Sound text) (fuel : Nat) (folded : Bool) :
    Reads text (t.block fuel folded) := by
  refine sound.dropCandidate.bind fun u sound => ?_
  refine (blockScalar_yields folded u.least fuel sound.within.step).bind fun ⟨s, input⟩ within => ?_
  refine .ok (.push ?_ trivial)
  exact sound.moved within rfl

theorem Sound.plain (sound : t.Sound text) (fuel : Nat) : Reads text (t.plain fuel) := by
  refine sound.saveCandidate.bind fun u sound => ?_
  have within := within_plainFrom u.inFlow u.least fuel false sound.within
  refine .ok (.push ?_ trivial)
  exact sound.moved within rfl

theorem Sound.token (sound : t.Sound text) (fuel : Nat) : Reads text (t.token fuel) := by
  have named {f : List Char → Token} (new : ∀ name, (f name).Sound text) :
      Reads text (t.starter ((anchorName t.input.step).map fun r => (f r.1, r.2))) :=
    sound.starter ((anchorName_yields sound.within.step).map
      fun r within => ⟨within, new r.1⟩)
  have plainOr {here : Bool} {rest : List Char} {read : Except Fault Tokenizer}
      (reads : Reads text read) :
      Reads text (if here then read
        else if startsPlain t.inFlow rest then t.plain fuel else .error .malformed) := by
    split
    · exact reads
    · split
      · exact sound.plain fuel
      · exact .malformed
  unfold Tokenizer.token
  dsimp only
  split
  · exact sound
  · split
    · exact sound.documentToken ((directive_yields fuel sound.within.step).map
        fun _ within => ⟨within, trivial⟩)
    · split
      · refine sound.documentToken ⟨sound.within.skip 3, ?_⟩
        dsimp only
        split <;> trivial
      · split
        · exact sound.openFlow trivial
        · exact sound.openFlow trivial
        · exact sound.closeFlow trivial
        · exact sound.closeFlow trivial
        · exact sound.flowEntry
        · exact plainOr sound.blockEntry
        · exact plainOr sound.key
        · exact plainOr sound.value
        · exact named fun _ => trivial
        · rename_i here _
          have inside : '&' ∈ text := sound.within.subset (by rw [here]; exact List.mem_cons_self)
          exact named fun _ => inside
        · exact sound.starter ((tagName_yields fuel sound.within).map
            fun _ within => ⟨within, trivial⟩)
        · exact plainOr (sound.block fuel false)
        · exact plainOr (sound.block fuel true)
        · exact sound.quoted fuel false
        · exact sound.quoted fuel true
        · exact plainOr .malformed

theorem Sound.advance (sound : t.Sound text) (fuel : Nat) : Reads text (t.advance fuel) := by
  refine (sound.skipByteOrderMark.skipSpace fuel).dropStale.bind fun u sound => ?_
  exact sound.unwind _

theorem Sound.stop (sound : t.Sound text) {f : Fault} (read : ReadFault text f) :
    ∀ token ∈ .fault f :: t.tokens, token.Sound text :=
  List.forall_mem_cons.mpr ⟨read, sound.tokens⟩

theorem Sound.run (sound : t.Sound text) (fuel : Nat) : ∀ token ∈ t.run fuel, token.Sound text := by
  induction fuel generalizing t with
  | zero => exact sound.stop .malformed
  | succ fuel ih =>
    have advanced := sound.advance fuel
    rw [Tokenizer.run]
    split
    · exact sound.stop (advanced.of_error ‹_›)
    · rename_i u reached
      have sound : u.Sound text := advanced.of_ok reached
      split
      · have ended := (sound.unwind none).dropCandidate
        split
        · exact sound.stop (ended.of_error ‹_›)
        · rename_i v done
          have sound : v.Sound text := ended.of_ok done
          exact List.forall_mem_cons.mpr ⟨trivial, sound.tokens⟩
      · have next := sound.token fuel
        split
        · exact sound.stop (next.of_error ‹_›)
        · rename_i read
          exact ih (next.of_ok read)

end Tokenizer

namespace Node

/-- The tokens to come are of the text, and so are the anchors. -/
structure Stream.Sound (text : List Char) (s : Stream) : Prop where
  tokens : ∀ token ∈ s.tokens, token.Sound text
  anchors : s.anchors ≠ [] → '&' ∈ text

abbrev Parses (text : List Char) (r : Read α) : Prop := Yields text (fun a => a.2.Sound text) r

variable {s : Stream}

namespace Stream.Sound

theorem pass (sound : s.Sound text) : s.pass.Sound text :=
  ⟨fun token member => sound.tokens token (List.mem_of_mem_drop member), sound.anchors⟩

theorem next (sound : s.Sound text) : s.next.Sound text := by
  rcases s with ⟨_ | ⟨t, ts⟩, anchors, handles⟩
  · trivial
  · exact sound.tokens t List.mem_cons_self

theorem next_fault (sound : s.Sound text) {f : Fault} (next : s.next = .fault f) :
    ReadFault text f := by
  have here := sound.next
  rwa [next] at here

theorem refuse (sound : s.Sound text) : ReadFault text s.refuse := by
  unfold Stream.refuse
  split
  · exact sound.next_fault ‹_›
  · exact .malformed

theorem expect (sound : s.Sound text) (token : Token) :
    Yields text (Stream.Sound text) (s.expect token) := by
  unfold Stream.expect
  split
  · exact sound.pass
  · exact sound.refuse

theorem properties (sound : s.Sound text) : (Node.properties s).2.2.Sound text := by
  unfold Node.properties
  split
  · split
    · exact sound.pass.pass
    · exact sound.pass
  · split
    · exact sound.pass.pass
    · exact sound.pass
  · exact sound

/-- An anchor before a node stands in the text. -/
theorem mem_of_properties (sound : s.Sound text) {a : List Char}
    (found : (Node.properties s).1 = some a) : '&' ∈ text := by
  have here := sound.next
  have behind := sound.pass.next
  unfold Node.properties at found
  split at found
  · rename_i anchor
    rwa [anchor] at here
  · split at found
    · rename_i anchor
      rwa [anchor] at behind
    · cases found
  · cases found

theorem openAnchor (sound : s.Sound text) {anchor : Option (List Char)}
    (inside : ∀ a, anchor = some a → '&' ∈ text) :
    Yields text (Stream.Sound text) (Node.openAnchor s anchor) := by
  unfold Node.openAnchor
  split
  · exact sound
  · rename_i a
    split
    · exact .malformed
    · exact ⟨sound.tokens, fun _ => inside a rfl⟩

theorem closeAnchor (sound : s.Sound text) (anchor : Option (List Char)) (n : Node) :
    (Node.closeAnchor anchor n s).2.Sound text := by
  unfold Node.closeAnchor
  split
  · exact sound
  · exact ⟨sound.tokens, fun some_ => sound.anchors fun none_ => some_ (by rw [none_]; rfl)⟩

end Stream.Sound

theorem resolve_yields (s : Stream) (t : TagName) :
    Yields text (fun _ => True) (resolve s t) := by
  unfold resolve
  split
  · trivial
  · split
    · trivial
    · exact .malformed

/-- With so much fuel, nodes meet no other fault. -/
structure Calm (text : List Char) (fuel : Nat) : Prop where
  node : ∀ {s : Stream} (place : Place), s.Sound text → Parses text (node place fuel s)
  content : ∀ {s : Stream} (place : Place) (name : Option (List Char)) (marked : Bool),
    s.Sound text → Parses text (content place fuel name marked s)
  blockItems : ∀ {s : Stream}, s.Sound text → Parses text (blockItems fuel s)
  looseEntries : ∀ {s : Stream}, s.Sound text → Parses text (looseEntries fuel s)
  entryNode : ∀ {s : Stream}, s.Sound text → Parses text (entryNode fuel s)
  blockEntries : ∀ {s : Stream}, s.Sound text → Parses text (blockEntries fuel s)
  flowItems : ∀ {s : Stream} (first : Bool), s.Sound text → Parses text (flowItems fuel first s)
  flowKey : ∀ {s : Stream} (closing : Token),
    s.Sound text → Parses text (flowKey fuel closing s)
  flowValue : ∀ {s : Stream} (closing : Token),
    s.Sound text → Parses text (flowValue fuel closing s)
  flowEntries : ∀ {s : Stream} (first : Bool), s.Sound text → Parses text (flowEntries fuel first s)

theorem calm_zero : Calm text 0 := by
  constructor
  all_goals intros; exact Stream.Sound.refuse ‹_›

variable {fuel : Nat}

theorem Calm.node_succ (calm : Calm text fuel) (place : Place) (sound : s.Sound text) :
    Parses text (Node.node place (fuel + 1) s) := by
  rw [Node.node]
  split
  · have anchored : ∀ {p : List Char × Option Node → Bool} {e : List Char × Option Node},
        s.anchors.find? p = some e → '&' ∈ text := fun found =>
      sound.anchors (List.ne_nil_of_mem (List.mem_of_find?_eq_some found))
    split
    · rename_i found
      split
      · exact ReadFault.entangled (anchored found)
      · exact sound.pass
    · rename_i found
      exact ReadFault.entangled (anchored found)
    · exact .malformed
  · split
    rename_i anchor tagName u prefixed
    have inside : ∀ a, anchor = some a → '&' ∈ text := fun a some_ =>
      sound.mem_of_properties (by rw [prefixed, some_])
    have sound := sound.properties
    rw [prefixed] at sound
    split
    · rename_i failed
      split at failed
      · cases failed
      · rename_i t
        have named : Yields text (fun _ => True) ((resolve u t).map some) :=
          (resolve_yields u t).map fun _ _ => trivial
        rwa [failed] at named
    · rename_i name resolved
      have opened := Stream.Sound.openAnchor sound inside
      split
      · exact opened.of_error ‹_›
      · rename_i v done
        have read := calm.content place name (anchor.isSome || tagName.isSome) (opened.of_ok done)
        split
        · exact read.of_error ‹_›
        · rename_i found
          exact Stream.Sound.closeAnchor (read.of_ok found) anchor _

theorem sequenceOf_yields (sound : s.Sound text) (name : Option (List Char)) (items : List Node) :
    Parses text (sequenceOf name items s) := by
  unfold sequenceOf
  dsimp only
  split
  · rename_i taken
    simp only [Bool.and_eq_true, decide_eq_true_eq] at taken
    exact .entangled (sound.anchors taken.1.2)
  · exact sound

theorem Calm.content_succ (calm : Calm text fuel) (place : Place) (name : Option (List Char))
    (marked : Bool) (sound : s.Sound text) :
    Parses text (Node.content place (fuel + 1) name marked s) := by
  rw [Node.content.eq_def]
  dsimp only
  split
  · exact (calm.looseEntries sound).bind fun r sound => sequenceOf_yields sound name r.1
  · exact sound.pass
  · exact (calm.flowItems true sound.pass).bind fun r sound => sequenceOf_yields sound name r.1
  · exact (calm.flowEntries true sound.pass).map fun _ sound => sound
  · exact (calm.blockItems sound.pass).bind fun r sound => sequenceOf_yields sound name r.1
  · exact (calm.blockItems sound.pass).bind fun r sound => sequenceOf_yields sound name r.1
  · exact (calm.blockEntries sound.pass).map fun _ sound => sound
  · exact (calm.blockEntries sound.pass).map fun _ sound => sound
  · split
    · exact sound
    · exact sound.refuse

theorem Calm.blockItems_succ (calm : Calm text fuel) (sound : s.Sound text) :
    Parses text (Node.blockItems (fuel + 1) s) := by
  rw [Node.blockItems]
  split
  · extract_lets item
    have read : Parses text item := by
      unfold item
      split
      · exact sound.pass
      · exact sound.pass
      · exact calm.node .block sound.pass
    clear_value item
    rcases item with f | ⟨x, u⟩
    · exact read
    · exact (calm.blockItems read).map fun _ sound => sound
  · exact (sound.expect .blockEnd).map fun _ sound => sound

theorem Calm.looseEntries_succ (calm : Calm text fuel) (sound : s.Sound text) :
    Parses text (Node.looseEntries (fuel + 1) s) := by
  rw [Node.looseEntries]
  split
  · extract_lets item
    have read : Parses text item := by
      unfold item
      split
      · exact sound.pass
      · exact sound.pass
      · exact sound.pass
      · exact sound.pass
      · exact calm.node .block sound.pass
    clear_value item
    rcases item with f | ⟨x, u⟩
    · exact read
    · exact (calm.looseEntries read).map fun _ sound => sound
  · exact sound.next_fault ‹_›
  · exact sound

theorem Calm.entryNode_succ (calm : Calm text fuel) (sound : s.Sound text) :
    Parses text (Node.entryNode (fuel + 1) s) := by
  rw [Node.entryNode]
  split
  · exact sound
  · exact sound
  · exact sound
  · exact calm.node .entry sound

theorem Calm.blockEntries_succ (calm : Calm text fuel) (sound : s.Sound text) :
    Parses text (Node.blockEntries (fuel + 1) s) := by
  rw [Node.blockEntries]
  split
  · have key := calm.entryNode sound.pass
    split
    · exact key.of_error ‹_›
    · rename_i k u found
      have sound : u.Sound text := key.of_ok found
      extract_lets value
      have read : Parses text value := by
        unfold value
        split
        · exact calm.entryNode sound.pass
        · exact sound.next_fault ‹_›
        · exact sound
      clear_value value
      rcases value with f | ⟨v, u⟩
      · exact read
      · exact (calm.blockEntries read).map fun _ sound => sound
  · exact (sound.expect .blockEnd).map fun _ sound => sound

theorem Calm.flowKey_succ (calm : Calm text fuel) (closing : Token) (sound : s.Sound text) :
    Parses text (Node.flowKey (fuel + 1) closing s) := by
  rw [Node.flowKey]
  split
  · exact sound
  · exact calm.node .flow sound

theorem Calm.flowValue_succ (calm : Calm text fuel) (closing : Token) (sound : s.Sound text) :
    Parses text (Node.flowValue (fuel + 1) closing s) := by
  rw [Node.flowValue]
  split
  · split
    · exact sound.pass
    · exact calm.node .flow sound.pass
  · exact sound.next_fault ‹_›
  · exact sound

/-- The comma before every item of a flow collection but the first one. -/
theorem separator_yields (sound : s.Sound text) (first : Bool) :
    Yields text (Stream.Sound text) (if first then .ok s else s.expect .flowEntry) := by
  split
  · exact sound
  · exact sound.expect .flowEntry

theorem Calm.flowItems_succ (calm : Calm text fuel) (first : Bool) (sound : s.Sound text) :
    Parses text (Node.flowItems (fuel + 1) first s) := by
  rw [Node.flowItems]
  have separated := separator_yields sound first
  split
  · exact sound.pass
  · split
    · exact separated.of_error ‹_›
    · rename_i u passed
      have sound : u.Sound text := separated.of_ok passed
      split
      · exact sound.pass
      · have key := calm.flowKey .flowSequenceEnd sound.pass
        split
        · exact key.of_error ‹_›
        · rename_i found
          have value := calm.flowValue .flowSequenceEnd (key.of_ok found)
          split
          · exact value.of_error ‹_›
          · rename_i found
            exact (calm.flowItems false (value.of_ok found)).map fun _ sound => sound
      · have read := calm.node .flow sound
        split
        · exact read.of_error ‹_›
        · rename_i found
          exact (calm.flowItems false (read.of_ok found)).map fun _ sound => sound

theorem Calm.flowEntries_succ (calm : Calm text fuel) (first : Bool) (sound : s.Sound text) :
    Parses text (Node.flowEntries (fuel + 1) first s) := by
  rw [Node.flowEntries]
  have separated := separator_yields sound first
  split
  · exact sound.pass
  · split
    · exact separated.of_error ‹_›
    · rename_i u passed
      have sound : u.Sound text := separated.of_ok passed
      split
      · exact sound.pass
      · have key := calm.flowKey .flowMappingEnd sound.pass
        split
        · exact key.of_error ‹_›
        · rename_i found
          have value := calm.flowValue .flowMappingEnd (key.of_ok found)
          split
          · exact value.of_error ‹_›
          · rename_i found
            exact (calm.flowEntries false (value.of_ok found)).map fun _ sound => sound
      · have read := calm.node .flow sound
        split
        · exact read.of_error ‹_›
        · rename_i found
          exact (calm.flowEntries false (read.of_ok found)).map fun _ sound => sound

theorem calm (text : List Char) (fuel : Nat) : Calm text fuel := by
  induction fuel with
  | zero => exact calm_zero
  | succ fuel ih =>
    exact ⟨ih.node_succ, ih.content_succ, ih.blockItems_succ, ih.looseEntries_succ,
      ih.entryNode_succ, ih.blockEntries_succ, ih.flowItems_succ, ih.flowKey_succ,
      ih.flowValue_succ, ih.flowEntries_succ⟩

/-! ### Documents -/

end Node

end ExprLexer.Yaml
