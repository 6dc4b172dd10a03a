import SchemaPlugin.Proofs.Request.Grammar
import SchemaPlugin.Proofs.Wire.WholeFields
import SchemaPlugin.Response

/-!
The message types, each with what its messages are read as, the fields that it knows, by number and
wire type, and the message types of its parts. All of them are read by one loop; they differ in the
step that a known field makes.
-/

namespace SchemaPlugin

open Descriptor
open Wire (DecodeError Fields Tag Value WireType decodeText)

/-- The types of the messages that are read. A message of a schema may hold others so many levels
deep; options are those of a table. -/
inductive MessageType
  | request
  | file
  | message (levels : Nat)
  | field
  | enum
  | enumValue
  | textOptions (table : List (Nat × Text))
  | flagOptions (table : List (Nat × Text))
  | response
  | generatedFile

namespace MessageType

/-- What a message of the type is read as. -/
def Content : MessageType → Type
  | request => Request
  | file => File
  | message _ => Message
  | field => Descriptor.Field
  | enum => Enum
  | enumValue => EnumValue
  | textOptions _ => OrderedMap Text
  | flagOptions _ => OrderedMap Bool
  | response => Response
  | generatedFile => GeneratedFile

def decode : (type : MessageType) → Bytes → Except DecodeError type.Content
  | request => Request.decode
  | file => File.decode
  | message levels => Message.decode levels
  | field => Descriptor.Field.decode
  | enum => Enum.decode
  | enumValue => EnumValue.decode
  | textOptions table => decodeTextOptions table
  | flagOptions table => decodeFlagOptions table
  | response => Response.decode
  | generatedFile => GeneratedFile.decode

/-- The tags of fields of one wire type. -/
def tagsOf (type : WireType) (numbers : List Nat) : List Tag := numbers.map fun n => ⟨n, type⟩

@[simp] theorem mem_tagsOf {type : WireType} {numbers : List Nat} {tag : Tag} :
    tag ∈ tagsOf type numbers ↔ tag.number ∈ numbers ∧ tag.wireType = type := by
  constructor
  · intro h
    obtain ⟨n, mem, rfl⟩ := List.mem_map.1 h
    exact ⟨mem, rfl⟩
  · rintro ⟨mem, rfl⟩
    exact List.mem_map_of_mem mem

/-- The fields that a message of the type is known to have. -/
def tags : MessageType → List Tag
  | request => tagsOf .lengthDelimited [1, 2, 15]
  | file => tagsOf .lengthDelimited [1, 2, 3, 4, 5, 7]
  | message _ => tagsOf .lengthDelimited [1, 2, 3, 4, 7]
  | field => tagsOf .lengthDelimited [1, 6, 8] ++ tagsOf .varint [3, 4, 5]
  | enum => tagsOf .lengthDelimited [1, 2]
  | enumValue => tagsOf .lengthDelimited [1] ++ tagsOf .varint [2]
  | textOptions table => tagsOf .lengthDelimited (table.map Prod.fst)
  | flagOptions table => tagsOf .varint (table.map Prod.fst)
  | response => tagsOf .lengthDelimited [1, 15]
  | generatedFile => tagsOf .lengthDelimited [1, 15]

/-- The type of the message in a field. -/
def part? : MessageType → Nat → Option MessageType
  | request, 15 => some file
  | file, 4 => some (message (maxNesting - 1))
  | file, 5 => some enum
  | file, 7 => some (textOptions fileOptions)
  | message _, 2 => some field
  | message levels, 3 => some (message (levels - 1))
  | message _, 4 => some enum
  | message _, 7 => some (flagOptions messageOptions)
  | field, 8 => some (flagOptions fieldOptions)
  | enum, 2 => some enumValue
  | response, 15 => some generatedFile
  | _, _ => none

/-- The message without fields. -/
def blank : (type : MessageType) → type.Content
  | request => ({} : Request)
  | file => ({} : File)
  | message _ => ({} : Message)
  | field => ({} : Descriptor.Field)
  | enum => ({} : Enum)
  | enumValue => ({} : EnumValue)
  | textOptions _ => (∅ : OrderedMap Text)
  | flagOptions _ => (∅ : OrderedMap Bool)
  | response => ({} : Response)
  | generatedFile => ({} : GeneratedFile)

def guard : MessageType → Tag → Nat → Except DecodeError Unit
  | message levels => Message.guard levels
  | _ => Fields.noGuard

def textOptionStep (table : List (Nat × Text)) (options : OrderedMap Text) (f : Wire.Field) :
    Except DecodeError (OrderedMap Text) :=
  match optionOf? table f.number, f.value with
  | some name, .lengthDelimited payload => do
    return options.insert name (← decodeText payload f.start)
  | _, _ => .ok options

def flagOptionStep (table : List (Nat × Text)) (options : OrderedMap Bool) (f : Wire.Field) :
    Except DecodeError (OrderedMap Bool) :=
  match optionOf? table f.number, f.value with
  | some name, .varint n => .ok (options.insert name (n != 0))
  | _, _ => .ok options

/-- What a field adds to a message. -/
def step : (type : MessageType) → type.Content → Wire.Field → Except DecodeError type.Content
  | request => Request.step
  | file => File.step
  | message levels => Message.step (Message.decodeNested levels)
  | field => Descriptor.Field.step
  | enum => Enum.step
  | enumValue => EnumValue.step
  | textOptions table => textOptionStep table
  | flagOptions table => flagOptionStep table
  | response => Response.step
  | generatedFile => GeneratedFile.step

theorem decode_eq_fold (type : MessageType) (bytes : Bytes) :
    type.decode bytes = (Fields.ofBytes bytes).fold type.guard type.step type.blank := by
  cases type with
  | message levels => exact Message.decode_eq levels bytes
  | _ => rfl

theorem mem_of_optionOf? {table : List (Nat × Text)} {number : Nat} {name : Text}
    (h : optionOf? table number = some name) : number ∈ table.map Prod.fst := by
  by_contra unlisted
  rw [optionOf?_eq_none_iff.2 unlisted] at h
  cases h

section Step

variable {type : MessageType} {number start : Nat} {value : Value} {s t : type.Content}

/-- A field that is not known is let through. -/
theorem guard_of_not_mem (unknown : ⟨number, value.wireType⟩ ∉ type.tags) :
    type.guard ⟨number, value.wireType⟩ start = .ok () := by
  cases type with
  | message levels =>
    refine if_neg fun refused => unknown ?_
    rw [refused.2]
    simp [tags]
  | _ => rfl

/-- A field that is not known changes nothing. -/
theorem step_of_not_mem (unknown : ⟨number, value.wireType⟩ ∉ type.tags) :
    type.step s ⟨number, value, start⟩ = .ok s := by
  cases type with
  | textOptions table =>
    simp only [step, textOptionStep]
    split
    · rename_i known
      exact absurd (mem_tagsOf.2 ⟨mem_of_optionOf? known, rfl⟩) unknown
    · rfl
  | flagOptions table =>
    simp only [step, flagOptionStep]
    split
    · rename_i known
      exact absurd (mem_tagsOf.2 ⟨mem_of_optionOf? known, rfl⟩) unknown
    · rfl
  | _ =>
    simp only [step, Request.step, File.step, Message.step, Descriptor.Field.step, Enum.step,
      EnumValue.step, Response.step, GeneratedFile.step]
    split <;> first | rfl | exact absurd (by simp [tags, Value.wireType]) unknown

theorem guard_at (start' : Nat) {tag : Tag} (h : type.guard tag start = .ok ()) :
    type.guard tag start' = .ok () := by
  cases type with
  | message levels =>
    simp only [guard, Message.guard] at h ⊢
    split_ifs at h with refused
    exact if_neg refused
  | _ => rfl

theorem bind_decodeText_at {α : Type} {payload : Bytes} (start' : Nat) {f : Text → α} {a : α}
    (h : (decodeText payload start >>= fun text => .ok (f text)) = .ok a) :
    (decodeText payload start' >>= fun text => .ok (f text)) = .ok a := by
  obtain ⟨text, read, eq⟩ := bind_eq_ok_iff.1 h
  exact bind_eq_ok_iff.2 ⟨text, Wire.decodeText_eq_ok_iff.2 (Wire.decodeText_eq_ok_iff.1 read), eq⟩

theorem step_at (start' : Nat) (h : type.step s ⟨number, value, start⟩ = .ok t) :
    type.step s ⟨number, value, start'⟩ = .ok t := by
  cases type with
  | field =>
    simp only [step, Descriptor.Field.step] at h ⊢
    split at h
    · exact bind_decodeText_at start' h
    · exact h
    · split at h
      · exact h
      · cases h
    · exact h
    · exact bind_decodeText_at start' h
    · exact h
    · exact h
  | flagOptions table => exact h
  | _ =>
    simp only [step, Request.step, File.step, Message.step, Enum.step, EnumValue.step,
      textOptionStep, Response.step, GeneratedFile.step] at h ⊢
    split at h <;> first | exact h | exact bind_decodeText_at start' h

end Step

theorem steady (type : MessageType) : Fields.Steady type.guard type.step where
  guarded start' h := guard_at start' h
  stepped start' h := step_at start' h

end MessageType

end SchemaPlugin
