import ExprLexer.Encoding.Decode
import ExprLexer.Text.Points

/-!
# Codecs

A codec makes text of bytes. The eleven encodings of this library are codecs under all their names;
the others that a system has form its registry, which is asked for a codec by the normal form of a
name. Nothing is known of a codec of the registry: it may write surrogates, and it may fail in other
ways than at some of the bytes. Codecs that do not make text are in no registry.
-/

namespace ExprLexer

inductive Codec.Failure where
  | fault (f : Encoding.Fault)
  /-- An error of the codec's own, of a class that tells nothing about the bytes. -/
  | other (kind message : String)
  deriving Repr

structure Codec where
  decode : List UInt8 → Except Codec.Failure Text.Points

def Encoding.codec (e : Encoding) : Codec where
  decode bytes :=
    match e.decode bytes with
    | .ok cs => .ok (Text.Points.ofChars cs)
    | .error f => .error (.fault f)

structure Registry where
  find? : List Char → Option Codec

namespace Registry

/-- A system with no codecs but the eleven encodings. -/
def empty : Registry := ⟨fun _ => none⟩

/-- The codec of a name. -/
def codec? (r : Registry) (name : String) : Option Codec :=
  match Encoding.ofName? name with
  | some e => some e.codec
  | none => r.find? (Encoding.normal name.toList)

end Registry

end ExprLexer
