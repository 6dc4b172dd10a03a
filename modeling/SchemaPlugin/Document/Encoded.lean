import SchemaPlugin.Document.Grammar
import SchemaPlugin.Text.Encoding

/-!
Documents from bytes. A byte order mark tells the encoding; without one, the zeros among the first
bytes do, as a document begins with ASCII.
-/

namespace SchemaPlugin.Document

/-- The byte order marks. Of two that a source begins with, the longer one comes first. -/
def byteOrderMarks : List (Bytes × Encoding) :=
  [([0x00, 0x00, 0xFE, 0xFF], .utf32 true), ([0xFF, 0xFE, 0x00, 0x00], .utf32 false),
    ([0xFE, 0xFF], .utf16 true), ([0xFF, 0xFE], .utf16 false), ([0xEF, 0xBB, 0xBF], .utf8)]

/-- The encoding that the zeros among the first bytes tell. -/
def encodingOfZeros : Bytes → Encoding
  | a :: b :: c :: d :: _ =>
    if a = 0 then if b = 0 then .utf32 true else .utf16 true
    else if b = 0 then if c = 0 ∧ d = 0 then .utf32 false else .utf16 false
    else .utf8
  | [a, b] => if a = 0 then .utf16 true else if b = 0 then .utf16 false else .utf8
  | _ => .utf8

/-- The text of a source of bytes, without its byte order mark. Places in UTF-8 count from after the
mark. -/
def decodeSource (bytes : Bytes) : Except Undecodable Text :=
  match byteOrderMarks.find? fun mark => mark.1.isPrefixOf bytes with
  | some (mark, encoding) => encoding.decode mark.length (bytes.drop mark.length)
  | none => (encodingOfZeros bytes).decode 0 bytes

/-- Why bytes are no document. -/
inductive SourceError
  | encoding (e : Undecodable)
  | grammar (e : SyntaxError)
  deriving DecidableEq

def SourceError.message : SourceError → Text
  | .encoding e => e.message
  | .grammar e => e.message

def ofBytes (bytes : Bytes) : Except SourceError Document := do
  let t ← (decodeSource bytes).mapError .encoding
  (ofDecoded t).mapError .grammar

end SchemaPlugin.Document
