import SchemaPlugin.Wire.Fields

/-!
Operations on one reader, one after the other, some of which may fail. A failing operation leaves
the reader where it was; only a text that is complete but no UTF-8 has been passed. The tags of a
buffer can also be asked for one at a time: once that has ended, by the end or by an error, it stays
ended.
-/

namespace SchemaPlugin.Wire

namespace Reader

/-- A length-prefixed text. Bytes that are no UTF-8 are consumed all the same. -/
def text (r : Reader) : Except DecodeError Text × Reader :=
  match r.delimited with
  | .error e => (.error e, r)
  | .ok (payload, next) => (decodeText payload r.offset, next)

/-- Passes over a value of the wire type with that number. -/
def skip (r : Reader) (wireType : Int) : Except DecodeError Reader :=
  match WireType.ofNumber? wireType with
  | none => r.fail (.unknownWireType wireType)
  | some w => do
    let (_, next) ← r.value w
    return next

/-- The tags from here to the end, their values passed over. The reader stops at the end, or where
the step that fails has left it. -/
def scan (r : Reader) : Except DecodeError (List Tag) × Reader :=
  if r.hasMore then
    match _ht : r.tag with
    | .error e => (.error e, r)
    | .ok (tag, next) =>
      match _hv : next.value tag.wireType with
      | .error e => (.error e, next)
      | .ok (_, last) =>
        let (tags, stop) := scan last
        (tags.map (tag :: ·), stop)
  else (.ok [], r)
termination_by r.rest.length
decreasing_by
  have h1 := Reader.length_tag _ht
  have h2 := Reader.length_value _hv
  omega

end Reader

/-- A reader together with a run over its tags, which may have ended. -/
structure ReaderSession where
  reader : Reader
  tagsEnded : Bool := false

namespace ReaderSession

inductive Operation
  | hasMore
  | tag
  | varint
  | int64
  | bool
  | fixed32
  | fixed64
  | bytes
  | message
  | text
  | skip (wireType : Int)
  | nextTag
  | scan

inductive Answer
  | flag (b : Bool)
  | tag (t : Tag)
  | number (n : Int)
  | bytes (bytes : Bytes)
  | text (t : Text)
  | tags (ts : List Tag)
  | nothing

def ofBytes (bytes : Bytes) : ReaderSession := ⟨Reader.ofBytes bytes, false⟩

/-- Reads a value; on failure the reader stays. -/
def read {α : Type} (s : ReaderSession) (op : Reader → Except DecodeError (α × Reader))
    (answer : α → Answer) : Except DecodeError Answer × ReaderSession :=
  match op s.reader with
  | .ok (a, next) => (.ok (answer a), { s with reader := next })
  | .error e => (.error e, s)

def perform (s : ReaderSession) : Operation → Except DecodeError Answer × ReaderSession
  | .hasMore => (.ok (.flag s.reader.hasMore), s)
  | .tag => s.read Reader.tag .tag
  | .varint => s.read Reader.varint fun n => .number n
  | .int64 => s.read Reader.varint fun n => .number (Varint.signed n)
  | .bool => s.read Reader.varint fun n => .flag (n != 0)
  | .fixed32 => s.read Reader.fixed32 fun n => .number n
  | .fixed64 => s.read Reader.fixed64 fun n => .number n
  | .bytes => s.read Reader.delimited .bytes
  | .message => s.read Reader.delimited .bytes
  | .text =>
    let (result, next) := s.reader.text
    (result.map .text, { s with reader := next })
  | .skip wireType =>
    match s.reader.skip wireType with
    | .ok next => (.ok .nothing, { s with reader := next })
    | .error e => (.error e, s)
  | .nextTag =>
    if s.tagsEnded then (.ok .nothing, s)
    else if s.reader.hasMore then
      match s.reader.tag with
      | .ok (t, next) => (.ok (.tag t), { s with reader := next })
      | .error e => (.error e, { s with tagsEnded := true })
    else (.ok .nothing, { s with tagsEnded := true })
  | .scan =>
    let (result, next) := s.reader.scan
    (result.map .tags, { s with reader := next })

end ReaderSession

end SchemaPlugin.Wire
