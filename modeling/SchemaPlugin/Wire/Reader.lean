import SchemaPlugin.Wire.Varint

/-!
A reader is a place in a buffer: the bytes before it are counted, the bytes after it are at hand.
Every read either takes a whole value and moves past it, or fails at the place it began.
-/

namespace SchemaPlugin.Wire

/-- How the value of a field is laid out. -/
inductive WireType
  | varint
  | fixed64
  | lengthDelimited
  | fixed32
  deriving DecidableEq

namespace WireType

def number : WireType → Nat
  | .varint => 0
  | .fixed64 => 1
  | .lengthDelimited => 2
  | .fixed32 => 5

def ofNumber? (n : Int) : Option WireType :=
  if n = 0 then some .varint
  else if n = 1 then some .fixed64
  else if n = 2 then some .lengthDelimited
  else if n = 5 then some .fixed32
  else none

end WireType

/-- A field number paired with the layout of the value. -/
structure Tag where
  number : Nat
  wireType : WireType
  deriving DecidableEq

structure Reader where
  offset : Nat
  rest : Bytes
  deriving DecidableEq

/-- The number that little-endian bytes spell. -/
def littleEndian : Bytes → Nat
  | [] => 0
  | b :: rest => b.toNat + 256 * littleEndian rest

namespace Reader

def ofBytes (bytes : Bytes) : Reader := ⟨0, bytes⟩

/-- The reader of a buffer at an offset; past its end nothing is left to read. -/
def ofBytesAt (bytes : Bytes) (offset : Nat) : Reader := ⟨offset, bytes.drop offset⟩

def hasMore (r : Reader) : Bool := !r.rest.isEmpty

/-- The reader after `n` more bytes. -/
def advance (r : Reader) (n : Nat) : Reader := ⟨r.offset + n, r.rest.drop n⟩

/-- The reader at `rest`, a tail of what it has left. -/
def moveTo (r : Reader) (rest : Bytes) : Reader := ⟨r.offset + (r.rest.length - rest.length), rest⟩

def fail {α : Type} (r : Reader) (fault : Fault) : Except DecodeError α := .error ⟨fault, r.offset⟩

def varint (r : Reader) : Except DecodeError (Nat × Reader) :=
  match Varint.read Varint.maxBytes r.rest with
  | .ok (n, rest) => .ok (n, r.moveTo rest)
  | .error fault => r.fail fault

/-- A tag is a varint: the field number above three bits of wire type. -/
def tag (r : Reader) : Except DecodeError (Tag × Reader) := do
  let (n, next) ← r.varint
  if n / 8 = 0 then r.fail .fieldNumberZero
  else match WireType.ofNumber? (n % 8 : Nat) with
    | some wireType => .ok (⟨n / 8, wireType⟩, next)
    | none => r.fail (.unknownWireType (n % 8 : Nat))

/-- The next `n` bytes, for a value of that kind. -/
def take (r : Reader) (value : Sized) (n : Nat) : Except DecodeError (Bytes × Reader) :=
  if r.rest.length < n then r.fail (.valueCut value n r.rest.length)
  else .ok (r.rest.take n, r.advance n)

def fixed32 (r : Reader) : Except DecodeError (Nat × Reader) := do
  let (bytes, next) ← r.take .fixed32 4
  return (littleEndian bytes, next)

def fixed64 (r : Reader) : Except DecodeError (Nat × Reader) := do
  let (bytes, next) ← r.take .fixed64 8
  return (littleEndian bytes, next)

/-- A varint length, then exactly that many bytes. -/
def delimited (r : Reader) : Except DecodeError (Bytes × Reader) := do
  let (length, next) ← r.varint
  next.take .lengthDelimited length

theorem length_varint {r next : Reader} {n : Nat} (h : r.varint = .ok (n, next)) :
    next.rest.length < r.rest.length := by
  unfold varint at h
  split at h
  · rename_i m rest hr
    simp only [Except.ok.injEq, Prod.mk.injEq] at h
    simpa [← h.2, moveTo] using Varint.length_read hr
  · simp [fail] at h

theorem length_take {r next : Reader} {value : Sized} {n : Nat} {bytes : Bytes}
    (h : r.take value n = .ok (bytes, next)) : next.rest.length = r.rest.length - n := by
  unfold take at h
  split at h
  · simp [fail] at h
  · simp only [Except.ok.injEq, Prod.mk.injEq] at h
    simp [← h.2, advance]

theorem length_tag {r next : Reader} {t : Tag} (h : r.tag = .ok (t, next)) :
    next.rest.length < r.rest.length := by
  unfold tag at h
  cases hv : r.varint with
  | error e => simp [hv, bind, Except.bind] at h
  | ok p =>
    obtain ⟨n, next'⟩ := p
    simp only [hv, bind, Except.bind] at h
    split at h
    · simp [fail] at h
    · split at h
      · simp only [Except.ok.injEq, Prod.mk.injEq] at h
        exact h.2 ▸ length_varint hv
      · simp [fail] at h

end Reader

end SchemaPlugin.Wire
