import SchemaPlugin.Descriptor
import SchemaPlugin.Wire.Fields

/-!
Descriptors from bytes. Each message type knows some fields, by number and wire type, and passes
over all others. A singular field keeps its last value, a repeated one collects them in order, and
an options message replaces the options before it.
-/

namespace SchemaPlugin.Descriptor

open Wire (DecodeError Fields decodeText)

/-- The most levels of messages inside messages. -/
def maxNesting : Nat := 64

/-- The option that a table gives to a field number. -/
def optionOf? (table : List (Nat × Text)) (number : Nat) : Option Text :=
  (table.find? fun entry => entry.1 = number).map Prod.snd

def decodeTextOptions (table : List (Nat × Text)) (bytes : Bytes) :
    Except DecodeError (OrderedMap Text) :=
  (Fields.ofBytes bytes).fold Fields.noGuard
    (fun options f => match optionOf? table f.number, f.value with
      | some name, .lengthDelimited payload => do
        return options.insert name (← decodeText payload f.start)
      | _, _ => .ok options) ∅

def decodeFlagOptions (table : List (Nat × Text)) (bytes : Bytes) :
    Except DecodeError (OrderedMap Bool) :=
  (Fields.ofBytes bytes).fold Fields.noGuard
    (fun options f => match optionOf? table f.number, f.value with
      | some name, .varint n => .ok (options.insert name (n != 0))
      | _, _ => .ok options) ∅

/-- A list with one more part at its end. -/
def append {α : Type} (parts : Option (List α)) (part : α) : Option (List α) :=
  parts.map (· ++ [part])

def EnumValue.step (v : EnumValue) (f : Wire.Field) : Except DecodeError EnumValue :=
  match f.number, f.value with
  | 1, .lengthDelimited payload => do
    return { v with name := some (← decodeText payload f.start) }
  | 2, .varint n => .ok { v with number := some (.int (Wire.Varint.signed n)) }
  | _, _ => .ok v

def EnumValue.decode (bytes : Bytes) : Except DecodeError EnumValue :=
  (Fields.ofBytes bytes).fold Fields.noGuard EnumValue.step {}

def Enum.step (e : Enum) (f : Wire.Field) : Except DecodeError Enum :=
  match f.number, f.value with
  | 1, .lengthDelimited payload => do
    return { e with name := some (← decodeText payload f.start) }
  | 2, .lengthDelimited payload => do
    return { e with values := append e.values (some (← EnumValue.decode payload)) }
  | _, _ => .ok e

def Enum.decode (bytes : Bytes) : Except DecodeError Enum :=
  (Fields.ofBytes bytes).fold Fields.noGuard Enum.step {}

def Field.step (d : Field) (f : Wire.Field) : Except DecodeError Field :=
  match f.number, f.value with
  | 1, .lengthDelimited payload => do
    return { d with name := some (← decodeText payload f.start) }
  | 3, .varint n => .ok { d with number := some (.int (Wire.Varint.signed n)) }
  | 4, .varint n =>
    match Label.ofNumber? n with
    | some label => .ok { d with label := some label }
    | none => .error ⟨.unknownLabel n, f.start⟩
  | 5, .varint n => .ok { d with type := some (.int n) }
  | 6, .lengthDelimited payload => do
    return { d with typeName := some (← decodeText payload f.start) }
  | 8, .lengthDelimited payload => do
    return { d with options := some (← decodeFlagOptions fieldOptions payload) }
  | _, _ => .ok d

def Field.decode (bytes : Bytes) : Except DecodeError Field :=
  (Fields.ofBytes bytes).fold Fields.noGuard Field.step {}

namespace Message

/-- Refuses the tag of a nested message where none may nest, before its payload is read. -/
def guard (levels : Nat) (tag : Wire.Tag) (start : Nat) : Except DecodeError Unit :=
  if levels = 0 ∧ tag = ⟨3, .lengthDelimited⟩ then
    .error ⟨.nestingTooDeep maxNesting, start⟩
  else .ok ()

theorem guard_succ (levels : Nat) (tag : Wire.Tag) (start : Nat) :
    guard (levels + 1) tag start = .ok () :=
  if_neg fun refused => absurd refused.1 levels.succ_ne_zero

theorem guard_of_number_ne (levels : Nat) {number : Nat} {type : Wire.WireType} (start : Nat)
    (h : number ≠ 3) : guard levels ⟨number, type⟩ start = .ok () :=
  if_neg fun refused => h (congrArg Wire.Tag.number refused.2)

def step (decodeNested : Bytes → Except DecodeError Message) (m : Message) (f : Wire.Field) :
    Except DecodeError Message :=
  match f.number, f.value with
  | 1, .lengthDelimited payload => do
    return { m with name := some (← decodeText payload f.start) }
  | 2, .lengthDelimited payload => do
    return { m with fields := append m.fields (some (← Field.decode payload)) }
  | 3, .lengthDelimited payload => do
    return { m with nestedMessages := append m.nestedMessages (some (← decodeNested payload)) }
  | 4, .lengthDelimited payload => do
    return { m with nestedEnums := append m.nestedEnums (some (← Enum.decode payload)) }
  | 7, .lengthDelimited payload => do
    return { m with options := some (← decodeFlagOptions messageOptions payload) }
  | _, _ => .ok m

/-- Reads a message in which messages may nest `levels` deep. Where none may, the guard keeps every
nested one away from the step. -/
def decode : (levels : Nat) → Bytes → Except DecodeError Message
  | 0, bytes => (Fields.ofBytes bytes).fold (guard 0) (step fun _ => .ok {}) {}
  | levels + 1, bytes => (Fields.ofBytes bytes).fold (guard (levels + 1)) (step (decode levels)) {}

/-- How the messages nested in a message are read. -/
def decodeNested : (levels : Nat) → Bytes → Except DecodeError Message
  | 0, _ => .ok {}
  | levels + 1, bytes => decode levels bytes

theorem decode_eq (levels : Nat) (bytes : Bytes) :
    decode levels bytes =
      (Fields.ofBytes bytes).fold (guard levels) (step (decodeNested levels)) {} := by
  cases levels <;> rfl

end Message

def File.step (d : File) (f : Wire.Field) : Except DecodeError File :=
  match f.number, f.value with
  | 1, .lengthDelimited payload => do
    return { d with name := some (← decodeText payload f.start) }
  | 2, .lengthDelimited payload => do
    return { d with package := some (← decodeText payload f.start) }
  | 3, .lengthDelimited payload => do
    return { d with dependencies := append d.dependencies (← decodeText payload f.start) }
  | 4, .lengthDelimited payload => do
    let message ← Message.decode (maxNesting - 1) payload
    return { d with messages := append d.messages (some message) }
  | 5, .lengthDelimited payload => do
    return { d with enums := append d.enums (some (← Enum.decode payload)) }
  | 7, .lengthDelimited payload => do
    return { d with options := some (← decodeTextOptions fileOptions payload) }
  | _, _ => .ok d

def File.decode (bytes : Bytes) : Except DecodeError File :=
  (Fields.ofBytes bytes).fold Fields.noGuard File.step {}

end SchemaPlugin.Descriptor
