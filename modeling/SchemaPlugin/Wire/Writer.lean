import SchemaPlugin.Wire.Reader

/-!
Writing fields. What is written is a list of bytes that only grows; the pieces of a message are made
apart and joined.
-/

namespace SchemaPlugin.Wire

/-- A field number that cannot be written. -/
structure FieldNumberError where
  number : Int
  deriving DecidableEq

def FieldNumberError.message (e : FieldNumberError) : Text :=
  "Field number must be positive, got " ++ Text.ofInt e.number

/-- The bits of either number, `b` of any sign. -/
def bitsOr (a : Nat) : Int → Int
  | .ofNat b => (a ||| b : Nat)
  | .negSucc b => .negSucc (b - (a &&& b))

namespace Tag

/-- The bytes of a tag. -/
def encode (t : Tag) : Bytes := Varint.ofNat (t.number * 8 + t.wireType.number)

/-- The bytes of a tag whose field number and wire type may be any integers: the number must be
positive, the bits of the wire type are put into it. -/
def encode? (number wireType : Int) : Except FieldNumberError Bytes :=
  if number < 1 then .error ⟨number⟩
  else .ok (Varint.encode (bitsOr (number.toNat * 8) wireType))

end Tag

/-- `width` bytes of a number, the lowest first. -/
def bytesLE : (width : Nat) → Nat → Bytes
  | 0, _ => []
  | width + 1, n => .ofNat n :: bytesLE width (n / 256)

def fixed32Bytes (i : Int) : Bytes := bytesLE 4 (i % 0x100000000).toNat

def fixed64Bytes (i : Int) : Bytes := bytesLE 8 (i % 0x10000000000000000).toNat

/-- Bytes after their length. -/
def delimitedBytes (payload : Bytes) : Bytes := Varint.ofNat payload.length ++ payload

/-- Why a write can fail. -/
inductive WriteError
  | fieldNumber (e : FieldNumberError)
  | text (e : Utf8.Unencodable)

def WriteError.message : WriteError → Text
  | .fieldNumber e => e.message
  | .text e => e.message

/-- The buffer written so far. -/
abbrev Writer := Bytes

namespace Writer

inductive Operation
  | tag (number wireType : Int)
  | varint (i : Int)
  | fixed32 (i : Int)
  | fixed64 (i : Int)
  | bytes (payload : Bytes)
  | text (t : Text)
  | message (payload : Bytes)
  | varintField (number i : Int)
  | textField (number : Int) (t : Text)
  | messageField (number : Int) (payload : Bytes)

/-- The bytes of a tag whose field number and wire type may be any integers. -/
def tagBytes (number wireType : Int) : Except WriteError Bytes :=
  (Tag.encode? number wireType).mapError .fieldNumber

/-- The bytes of a text after their length. -/
def textBytes (t : Text) : Except WriteError Bytes :=
  match Utf8.encode t with
  | .ok payload => .ok (delimitedBytes payload)
  | .error e => .error (.text e)

/-- What an operation appends, piece by piece. -/
def pieces : Operation → List (Except WriteError Bytes)
  | .tag number wireType => [tagBytes number wireType]
  | .varint i => [.ok (Varint.encode i)]
  | .fixed32 i => [.ok (fixed32Bytes i)]
  | .fixed64 i => [.ok (fixed64Bytes i)]
  | .bytes payload => [.ok (delimitedBytes payload)]
  | .text t => [textBytes t]
  | .message payload => [.ok (delimitedBytes payload)]
  | .varintField number i => [tagBytes number 0, .ok (Varint.encode i)]
  | .textField number t => [tagBytes number 2, textBytes t]
  | .messageField number payload => [tagBytes number 2, .ok (delimitedBytes payload)]

/-- Appends pieces up to the first that fails; what was appended before it stays. -/
def append : Writer → List (Except WriteError Bytes) → Except WriteError Unit × Writer
  | w, [] => (.ok (), w)
  | w, .error e :: _ => (.error e, w)
  | w, .ok bytes :: rest => append (w ++ bytes) rest

def perform (w : Writer) (op : Operation) : Except WriteError Unit × Writer := append w (pieces op)

end Writer

end SchemaPlugin.Wire
