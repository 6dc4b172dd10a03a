import SchemaPlugin.Wire.Reader

/-!
A buffer is a sequence of fields, each a tag and a value of its wire type. `Fields.ofReader` splits
a buffer all the way, up to the point where it breaks off if it does; `Fields.fold` is the one loop
by which every message type is read.
-/

namespace SchemaPlugin.Wire

/-- The value of a field, as far as its wire type tells. -/
inductive Value
  | varint (n : Nat)
  | fixed64 (n : Nat)
  | lengthDelimited (payload : Bytes)
  | fixed32 (n : Nat)
  deriving DecidableEq

def Value.wireType : Value → WireType
  | .varint _ => .varint
  | .fixed64 _ => .fixed64
  | .lengthDelimited _ => .lengthDelimited
  | .fixed32 _ => .fixed32

/-- A field, with the offset at which its value begins. -/
structure Field where
  number : Nat
  value : Value
  start : Nat
  deriving DecidableEq

def Field.tag (f : Field) : Tag := ⟨f.number, f.value.wireType⟩

namespace Reader

/-- Reads the value of a field. The width of a fixed one is checked as for skipping it. -/
def value (r : Reader) : WireType → Except DecodeError (Value × Reader)
  | .varint => do
    let (n, next) ← r.varint
    return (.varint n, next)
  | .fixed64 => do
    let (bytes, next) ← r.take .skipped 8
    return (.fixed64 (littleEndian bytes), next)
  | .lengthDelimited => do
    let (payload, next) ← r.delimited
    return (.lengthDelimited payload, next)
  | .fixed32 => do
    let (bytes, next) ← r.take .skipped 4
    return (.fixed32 (littleEndian bytes), next)

theorem length_value {r next : Reader} {w : WireType} {v : Value} (h : r.value w = .ok (v, next)) :
    next.rest.length ≤ r.rest.length := by
  cases w with
  | varint =>
    simp only [value] at h
    cases hv : r.varint with
    | error e => simp [hv, bind, Except.bind] at h
    | ok p =>
      simp only [hv, bind, Except.bind, pure, Except.pure, Except.ok.injEq, Prod.mk.injEq] at h
      exact h.2 ▸ Nat.le_of_lt (length_varint hv)
  | fixed64 =>
    simp only [value] at h
    cases ht : r.take .skipped 8 with
    | error e => simp [ht, bind, Except.bind] at h
    | ok p =>
      simp only [ht, bind, Except.bind, pure, Except.pure, Except.ok.injEq, Prod.mk.injEq] at h
      have := length_take ht
      rw [← h.2]
      omega
  | lengthDelimited =>
    simp only [value, delimited] at h
    cases hv : r.varint with
    | error e => simp [hv, bind, Except.bind] at h
    | ok p =>
      obtain ⟨n, mid⟩ := p
      simp only [hv, bind, Except.bind] at h
      cases ht : mid.take .lengthDelimited n with
      | error e => simp [ht] at h
      | ok q =>
        simp only [ht, pure, Except.pure, Except.ok.injEq, Prod.mk.injEq] at h
        have h1 := length_varint hv
        have h2 := length_take ht
        rw [← h.2]
        omega
  | fixed32 =>
    simp only [value] at h
    cases ht : r.take .skipped 4 with
    | error e => simp [ht, bind, Except.bind] at h
    | ok p =>
      simp only [ht, bind, Except.bind, pure, Except.pure, Except.ok.injEq, Prod.mk.injEq] at h
      have := length_take ht
      rw [← h.2]
      omega

end Reader

/-- The fields of a buffer in order, and how they end: with the buffer, at a tag that cannot be
read, or at a tag, its value beginning at `start`, whose value cannot be read. -/
inductive Fields
  | done
  | badTag (e : DecodeError)
  | badValue (tag : Tag) (start : Nat) (e : DecodeError)
  | field (f : Field) (rest : Fields)
  deriving DecidableEq

namespace Fields

def ofReader (r : Reader) : Fields :=
  if r.hasMore then
    match _ht : r.tag with
    | .error e => .badTag e
    | .ok (tag, next) =>
      match _hv : next.value tag.wireType with
      | .error e => .badValue tag next.offset e
      | .ok (value, last) => .field ⟨tag.number, value, next.offset⟩ (ofReader last)
  else .done
termination_by r.rest.length
decreasing_by
  have h1 := Reader.length_tag _ht
  have h2 := Reader.length_value _hv
  omega

def ofBytes (bytes : Bytes) : Fields := ofReader (Reader.ofBytes bytes)

/-- Takes the fields one after the other. `guard` sees each tag, and where its value begins, before
the value is read; `step` takes the field. The first refusal ends the run. -/
def fold {σ : Type} (guard : Tag → Nat → Except DecodeError Unit)
    (step : σ → Field → Except DecodeError σ) : σ → Fields → Except DecodeError σ
  | s, .done => .ok s
  | _, .badTag e => .error e
  | _, .badValue tag start e => do
    guard tag start
    .error e
  | s, .field f rest => do
    guard f.tag f.start
    fold guard step (← step s f) rest

/-- No tag is refused. -/
def noGuard : Tag → Nat → Except DecodeError Unit := fun _ _ => .ok ()

/-- The tags of a buffer that holds whole fields only. -/
def tags : Fields → Except DecodeError (List Tag)
  | .done => .ok []
  | .badTag e => .error e
  | .badValue _ _ e => .error e
  | .field f rest => do return f.tag :: (← tags rest)

end Fields

/-- The text of a payload whose length prefix stands at `start`. -/
def decodeText (payload : Bytes) (start : Nat) : Except DecodeError Text :=
  match Utf8.decode payload with
  | .ok t => .ok t
  | .error e => .error ⟨.invalidText e.reason, start⟩

end SchemaPlugin.Wire
