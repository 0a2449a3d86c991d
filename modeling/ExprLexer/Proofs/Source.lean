import ExprLexer.Source
import ExprLexer.Proofs.Encoding.Single
import ExprLexer.Proofs.Encoding.Utf8
import ExprLexer.Proofs.Encoding.Wide
import ExprLexer.Proofs.Text.Points

/-!
# Source text is the text that was encoded

In an encoding without marks a source loads as a text just if its bytes are those of the text, and
in an encoding with a mark the bytes of a text behind the mark load as that text (`load_encoded`).
No character is changed on the way, and the standard input is read like a file.
-/

namespace ExprLexer

namespace Encoding

variable {cs : List Char} {bytes : List UInt8}

theorem Scheme.faithful (s : Scheme) : s.Faithful := by
  cases s with
  | utf8 => exact Scheme.utf8_faithful
  | latin1 => exact Scheme.latin1_faithful
  | ascii => exact Scheme.ascii_faithful
  | cp1252 => exact Scheme.cp1252_faithful
  | utf16 o => exact Scheme.utf16_faithful o
  | utf32 o => exact Scheme.utf32_faithful o

/-! ### Marks -/

theorem Scheme.exists_of_mark {s : Scheme} (encodes : s.encode? ('\ufeff' :: cs) = some bytes) :
    ∃ rest, bytes = s.mark ++ rest ∧ s.encode? cs = some rest := by
  obtain ⟨front, rest, char, text, rfl⟩ := Scheme.encode?_cons.mp encodes
  refine ⟨rest, ?_, text⟩
  rw [Scheme.mark, char, Option.getD_some]

theorem Scheme.behindMark?_append (s : Scheme) (rest : List UInt8) :
    s.behindMark? (s.mark ++ rest) = some rest := by
  have here : s.mark.isPrefixOf (s.mark ++ rest) = true := by simp
  rw [Scheme.behindMark?, if_pos here, List.drop_left]

theorem Scheme.behindMark?_nil {s : Scheme} (marked : s.mark ≠ []) : s.behindMark? [] = none := by
  have none_ : ¬ s.mark.isPrefixOf [] = true := by simp [marked]
  rw [Scheme.behindMark?, if_neg none_]

theorem decode_of_encode? {e : Encoding} (encodes : e.encode? cs = some bytes) :
    e.decode bytes = .ok cs := by
  have ordered : ∀ scheme : ByteOrder → Scheme,
      (scheme .little).encode? ('\ufeff' :: cs) = some bytes →
        decodeOrdered scheme bytes = .ok cs := by
    intro scheme encodes
    obtain ⟨rest, rfl, text⟩ := Scheme.exists_of_mark encodes
    rw [decodeOrdered, Scheme.behindMark?_append]
    exact (scheme .little).faithful.decode_of_encode? text _
  cases e with
  | plain s => exact s.faithful.decode_of_encode? encodes 0
  | utf8Marked =>
    obtain ⟨rest, rfl, text⟩ := Scheme.exists_of_mark encodes
    rw [decode, Scheme.behindMark?_append]
    exact Scheme.utf8_faithful.decode_of_encode? text 0
  | utf16Marked => exact ordered .utf16 encodes
  | utf32Marked => exact ordered .utf32 encodes

theorem decode_nil (e : Encoding) : e.decode [] = .ok [] := by
  have ordered : ∀ scheme : ByteOrder → Scheme, (∀ o, (scheme o).mark ≠ []) →
      decodeOrdered scheme [] = .ok [] := by
    intro scheme marked
    rw [decodeOrdered, Scheme.behindMark?_nil (marked _), Scheme.behindMark?_nil (marked _)]
    exact Scheme.decode_nil 0
  cases e with
  | plain s => exact Scheme.decode_nil 0
  | utf8Marked => exact Scheme.decode_nil 0
  | utf16Marked => exact ordered .utf16 fun o => by cases o <;> decide
  | utf32Marked => exact ordered .utf32 fun o => by cases o <;> decide

end Encoding

namespace Registry

/-- The registry is not asked for one of the eleven encodings. -/
theorem codec?_eq {name : String} {e : Encoding} (r : Registry)
    (named : Encoding.ofName? name = some e) : r.codec? name = some e.codec := by
  rw [codec?, named]

end Registry

namespace Source

open Text (Points)

variable {w : Surroundings} {path : Path} {bytes : List UInt8} {name : String} {e : Encoding}
  {codecs : Registry}

theorem ofBytes_ofString (codecs : Registry) (origin : Origin) (name : String)
    (bytes : List UInt8) :
    ofBytes codecs origin (.ofString name) bytes = decode codecs origin name bytes := by
  rw [ofBytes, Points.toString?_ofString]

theorem decode_eq (codecs : Registry) (origin : Origin) (clean : '\x00' ∉ name.toList)
    (named : Encoding.ofName? name = some e) :
    decode codecs origin name bytes =
      match e.decode bytes with
      | .error f => .error (.reported (.undecodable origin name f))
      | .ok cs => .ok (Points.ofChars cs) := by
  have noNull : name.toList.contains '\x00' = false := by simpa using clean
  rw [decode, noNull, if_neg Bool.false_ne_true, codecs.codec?_eq named]
  by_cases empty : bytes = []
  · rw [if_pos empty, empty, Encoding.decode_nil]
    rfl
  · rw [if_neg empty, Encoding.codec]
    dsimp only
    cases e.decode bytes <;> rfl

theorem load_of_read (content : w.files.read path = .ok bytes) (name : Points) :
    load w.host path name =
      (ofBytes w.codecs (.file path) name bytes).map (logged (.file path)) := by
  have read_ : w.host.read path = .ok bytes := content
  unfold load
  rw [read_]
  rfl

theorem read_of_input (content : w.input = .ok bytes) (name : Points) :
    read w.host inputName name = (ofBytes w.codecs .input name bytes).map (logged .input) := by
  have read_ : w.host.input = .ok bytes := content
  unfold read loadInput
  rw [if_pos rfl, read_]
  rfl

/-- The encodings without marks by their usual names, each with its scheme. -/
def plainEncodings : List (String × Encoding.Scheme) :=
  [("utf-8", .utf8), ("latin-1", .latin1), ("ascii", .ascii), ("cp1252", .cp1252),
    ("utf-16-le", .utf16 .little), ("utf-16-be", .utf16 .big), ("utf-32-le", .utf32 .little)]

/-- The encodings that put a mark in front of the text. -/
def markedEncodings : List (String × Encoding) :=
  [("utf-8-sig", .utf8Marked), ("utf-16", .utf16Marked), ("utf-32", .utf32Marked)]

theorem plainEncodings_named : ∀ p ∈ plainEncodings,
    '\x00' ∉ p.1.toList ∧ Encoding.ofName? p.1 = some (.plain p.2) := by
  decide

theorem markedEncodings_named : ∀ p ∈ markedEncodings,
    '\x00' ∉ p.1.toList ∧ Encoding.ofName? p.1 = some p.2 := by
  decide

theorem map_logged_eq_ok_iff {origin : Origin} {text : Points}
    {x : Except (Problem SourceError) Points} :
    x.map (logged origin) = .ok (logged origin text) ↔ x = .ok text := by
  cases x with
  | error p => exact iff_of_false nofun nofun
  | ok t =>
    constructor
    · intro same
      exact congrArg Except.ok (congrArg Logged.value (Except.ok.inj same))
    · intro same
      rw [same]
      rfl

theorem map_logged_eq_error_iff {origin : Origin} {p : Problem SourceError}
    {x : Except (Problem SourceError) Points} :
    x.map (logged origin) = .error p ↔ x = .error p := by
  cases x with
  | error q =>
    show Except.error q = Except.error p ↔ Except.error q = Except.error p
    rw [Except.error.injEq, Except.error.injEq]
  | ok t => exact iff_of_false nofun nofun

/-- Where the bytes come from matters to the wording of errors only. -/
theorem ofBytes_origin (codecs : Registry) (o o' : Origin) (name : Points) (bytes : List UInt8) :
    (∀ text, ofBytes codecs o name bytes = .ok text ↔ ofBytes codecs o' name bytes = .ok text) ∧
    ((∃ e, ofBytes codecs o name bytes = .error (.reported e)) ↔
      ∃ e, ofBytes codecs o' name bytes = .error (.reported e)) := by
  unfold ofBytes
  cases name.toString? with
  | none => exact ⟨fun _ => Iff.rfl, Iff.rfl⟩
  | some name =>
    dsimp only
    unfold decode
    by_cases null : name.toList.contains '\x00'
    · simp only [if_pos null, implies_true, and_self]
    by_cases empty : bytes = []
    · simp only [if_neg null, if_pos empty, implies_true, and_self]
    simp only [if_neg null, if_neg empty]
    cases codecs.codec? name with
    | none => exact ⟨fun _ => Iff.rfl, Iff.rfl⟩
    | some c =>
      dsimp only
      match c.decode bytes with
      | .error (.fault f) =>
        exact ⟨fun _ => iff_of_false nofun nofun, iff_of_true ⟨_, rfl⟩ ⟨_, rfl⟩⟩
      | .error (.other _ _) => exact ⟨fun _ => Iff.rfl, Iff.rfl⟩
      | .ok t => exact ⟨fun _ => Iff.rfl, Iff.rfl⟩

/-- What comes of the bytes in a scheme: the text whose bytes they are, else an error. -/
theorem ofBytes_plain (codecs : Registry) (origin : Origin) {scheme : Encoding.Scheme}
    (clean : '\x00' ∉ name.toList) (named : Encoding.ofName? name = some (.plain scheme)) :
    (∀ text : String, ofBytes codecs origin (.ofString name) bytes = .ok (.ofString text) ↔
      scheme.encode? text.toList = some bytes) ∧
    ((∀ text : String, scheme.encode? text.toList ≠ some bytes) →
      ∃ f, ofBytes codecs origin (.ofString name) bytes =
        .error (.reported (.undecodable origin name f))) := by
  rw [ofBytes_ofString, decode_eq codecs origin clean named]
  have faithful : ∀ cs, scheme.decode 0 bytes = .ok cs ↔ scheme.encode? cs = some bytes :=
    fun cs => scheme.faithful.decode_eq_ok_iff 0
  cases decoded : Encoding.decode (.plain scheme) bytes with
  | error f =>
    refine ⟨fun text => iff_of_false nofun fun encodes => ?_, fun _ => ⟨f, rfl⟩⟩
    cases decoded.symm.trans ((faithful _).mpr encodes)
  | ok cs =>
    have encodes : scheme.encode? cs = some bytes := (faithful cs).mp decoded
    refine ⟨fun text => ?_, fun none_ => ?_⟩
    · rw [← faithful, show scheme.decode 0 bytes = .ok cs from decoded]
      dsimp only
      rw [Except.ok.injEq, Except.ok.injEq]
      exact Points.ofChars_injective.eq_iff
    · refine absurd ?_ (none_ (String.ofList cs))
      rw [String.toList_ofList, encodes]

/-- Loading a source in an encoding without marks gives a text just if the bytes are those of the
text, and bytes of no text are an error. In an encoding with a mark the bytes of a text, which the
mark starts, give the text. The standard input gives what a file of the same bytes does. -/
theorem load_encoded (content : w.files.read path = .ok bytes) :
    (∀ p ∈ plainEncodings,
      (∀ text : String,
        load w.host path (.ofString p.1) = .ok (logged (.file path) (.ofString text)) ↔
        p.2.encode? text.toList = some bytes) ∧
      ((∀ text : String, p.2.encode? text.toList ≠ some bytes) →
        ∃ e, load w.host path (.ofString p.1) = .error (.reported e))) ∧
    (∀ p ∈ markedEncodings, ∀ text : String, p.2.encode? text.toList = some bytes →
      load w.host path (.ofString p.1) = .ok (logged (.file path) (.ofString text))) ∧
    (w.input = .ok bytes → ∀ name : Points,
      (∀ text, read w.host inputName name = .ok (logged .input text) ↔
        load w.host path name = .ok (logged (.file path) text)) ∧
      ((∃ e, read w.host inputName name = .error (.reported e)) ↔
        ∃ e, load w.host path name = .error (.reported e))) := by
  refine ⟨fun p plain => ?_, fun p marked text encodes => ?_, fun input name => ?_⟩
  · obtain ⟨clean, named⟩ := plainEncodings_named p plain
    rw [load_of_read content]
    obtain ⟨texts, errors⟩ := ofBytes_plain w.codecs (.file path) clean named
    refine ⟨fun text => map_logged_eq_ok_iff.trans (texts text), fun none_ => ?_⟩
    obtain ⟨f, failed⟩ := errors none_
    exact ⟨_, map_logged_eq_error_iff.mpr failed⟩
  · obtain ⟨clean, named⟩ := markedEncodings_named p marked
    rw [load_of_read content, map_logged_eq_ok_iff, ofBytes_ofString, decode_eq _ _ clean named,
      Encoding.decode_of_encode? encodes]
    rfl
  · obtain ⟨texts, errors⟩ := ofBytes_origin w.codecs .input (.file path) name bytes
    rw [read_of_input input, load_of_read content]
    constructor
    · intro text
      exact map_logged_eq_ok_iff.trans ((texts text).trans map_logged_eq_ok_iff.symm)
    · have failed : ∀ o e, (ofBytes w.codecs o name bytes).map (logged o) = .error (.reported e) ↔
          ofBytes w.codecs o name bytes = .error (.reported e) := fun _ _ => map_logged_eq_error_iff
      exact (exists_congr (failed .input)).trans (errors.trans (exists_congr (failed _)).symm)

/-- A file and a standard input of these bytes. -/
def sameBytes (bytes : List UInt8) : Surroundings :=
  ⟨⟨.directory [("a.src", .file bytes)], []⟩, .ok bytes, .empty⟩

theorem load_encoded_utf16 :
    let bytes := [0xFF, 0xFE, 0x0D, 0x00, 0x0A, 0x00, 0x3D, 0xD8, 0x00, 0xDE]
    let w := sameBytes bytes
    let path := Path.ofString "a.src"
    w.files.read path = .ok bytes ∧
      load w.host path (.ofString "utf-16-le") =
        .ok (logged (.file path) (.ofString "\ufeff\r\n😀")) ∧
      load w.host path (.ofString "utf-16") = .ok (logged (.file path) (.ofString "\r\n😀")) ∧
      (∃ e, load w.host path (.ofString "utf-8") = .error (.reported e)) ∧
      read w.host inputName (.ofString "utf-16") = .ok (logged .input (.ofString "\r\n😀")) := by
  intro bytes w path
  have content : w.files.read path = .ok bytes := by rfl
  obtain ⟨plain, marked, input⟩ := load_encoded content
  have loaded := marked ("utf-16", .utf16Marked) (by decide) "\r\n😀" (by decide)
  refine ⟨content, ?_, loaded, ?_, ?_⟩
  · exact ((plain ("utf-16-le", .utf16 .little) (by decide)).1 _).mpr (by decide)
  · refine (plain ("utf-8", .utf8) (by decide)).2 fun text encodes => ?_
    have decoded := Encoding.Scheme.utf8_faithful.decode_of_encode? encodes 0
    rw [Encoding.Scheme.decode_cons] at decoded
    cases decoded
  · exact ((input rfl (.ofString "utf-16")).1 _).mpr loaded

end Source

end ExprLexer
