import SchemaPlugin.Proofs.Basic
import SchemaPlugin.Request
import SchemaPlugin.Wire.Varint

/-!
What encoding keeps of a descriptor. Numbers keep their last 64 bits, options those that have a
field number, and requests the files that have a name, each under its own. A descriptor is well
typed if no part of it is null but a package or a type name; it fits if no number of it needs more
than 64 bits and no message nests too deep.
-/

namespace SchemaPlugin

open Wire (word64)
open Wire.Varint (signed)

namespace Descriptor

/-- The signed integer in the last 64 bits. -/
def Number.toSigned (n : Number) : Number := .int (signed n.value)

/-- The unsigned integer in the last 64 bits. -/
def Number.toUnsigned (n : Number) : Number := .int (n.value % word64)

/-- Every part of a list that is there. -/
def Each {α : Type} (P : α → Prop) (parts : Option (List (Option α))) : Prop :=
  ∀ as, parts = some as → ∀ a, some a ∈ as → P a

@[simp] theorem each_map_some {α : Type} {P : α → Prop} {as : List α} :
    Each P (some (as.map some)) ↔ ∀ a ∈ as, P a := by
  simp [Each]

/-- The parts that are there, after a change to each. -/
def mapParts {α β : Type} (f : α → β) (parts : Option (List (Option α))) :
    Option (List (Option β)) :=
  parts.map (List.map (Option.map f))

@[simp] theorem mapParts_map_some {α β : Type} (f : α → β) (as : List α) :
    mapParts f (some (as.map some)) = some ((as.map f).map some) := by
  simp [mapParts, Function.comp_def]

@[simp] theorem append_map_some {α : Type} (as : List α) (a : α) :
    append (some (as.map some)) (some a) = some ((as ++ [a]).map some) := by
  simp [append]

/-- The options that have a field number. -/
def known {α : Type} (table : List (Nat × Text)) (options : Option (OrderedMap α)) :
    Option (OrderedMap α) :=
  options.map (·.restrict (table.map Prod.snd))

namespace EnumValue

inductive WellTyped : EnumValue → Prop
  | mk {name : Text} {number : Number} (encodable : name.Encodable) :
      WellTyped ⟨some name, some number⟩

def Fits (v : EnumValue) : Prop := ∀ n, v.number = some n → n.value < word64

def normalize (v : EnumValue) : EnumValue := { v with number := v.number.map .toSigned }

end EnumValue

namespace Enum

inductive WellTyped : Enum → Prop
  | mk {name : Text} {values : List EnumValue} (encodable : name.Encodable)
      (typed : ∀ v ∈ values, v.WellTyped) : WellTyped ⟨some name, some (values.map some)⟩

def Fits (e : Enum) : Prop := Each EnumValue.Fits e.values

def normalize (e : Enum) : Enum := { e with values := mapParts .normalize e.values }

end Enum

namespace Field

inductive WellTyped : Field → Prop
  | mk {name : Text} {number type : Number} {label : Label} {typeName : Option Text}
      {options : OrderedMap Bool} (encodable : name.Encodable)
      (typeEncodable : ∀ t, typeName = some t → t.Encodable) :
      WellTyped ⟨some name, some number, some label, some type, typeName, some options⟩

def Fits (f : Field) : Prop :=
  (∀ n, f.number = some n → n.value < word64) ∧ ∀ n, f.type = some n → n.value < word64

def normalize (f : Field) : Field :=
  { f with number := f.number.map .toSigned, type := f.type.map .toUnsigned,
           options := known fieldOptions f.options }

end Field

namespace Message

inductive WellTyped : Message → Prop
  | mk {name : Text} {fields : List Field} {messages : List Message} {enums : List Enum}
      {options : OrderedMap Bool} (encodable : name.Encodable)
      (fieldsTyped : ∀ f ∈ fields, f.WellTyped) (messagesTyped : ∀ m ∈ messages, WellTyped m)
      (enumsTyped : ∀ e ∈ enums, e.WellTyped) :
      WellTyped ⟨some name, some (fields.map some), some (messages.map some),
        some (enums.map some), some options⟩

/-- The numbers of a message and of all messages nested in it need no more than 64 bits. -/
inductive Fits : Message → Prop
  | mk {m : Message} (fields : Each Field.Fits m.fields)
      (messages : ∀ ms, m.nestedMessages = some ms → ∀ k, some k ∈ ms → Fits k)
      (enums : Each Enum.Fits m.nestedEnums) : Fits m

mutual

/-- The levels of messages, one inside the other: 1 if no message is nested. -/
def levels : Message → Nat
  | ⟨_, _, none, _, _⟩ => 1
  | ⟨_, _, some messages, _, _⟩ => levelsOf messages + 1

/-- The most levels of some messages. -/
def levelsOf : List (Option Message) → Nat
  | [] => 0
  | none :: rest => levelsOf rest
  | some m :: rest => max m.levels (levelsOf rest)

end

mutual

def normalize : Message → Message
  | ⟨name, fields, none, enums, options⟩ =>
    ⟨name, mapParts .normalize fields, none, mapParts .normalize enums,
      known messageOptions options⟩
  | ⟨name, fields, some messages, enums, options⟩ =>
    ⟨name, mapParts .normalize fields, some (normalizeAll messages), mapParts .normalize enums,
      known messageOptions options⟩

def normalizeAll : List (Option Message) → List (Option Message)
  | [] => []
  | none :: rest => none :: normalizeAll rest
  | some m :: rest => some m.normalize :: normalizeAll rest

end

theorem levels_pos (m : Message) : 0 < m.levels := by
  unfold levels
  split <;> omega

theorem levelsOf_le_iff {messages : List Message} {n : Nat} :
    levelsOf (messages.map some) ≤ n ↔ ∀ m ∈ messages, m.levels ≤ n := by
  induction messages with
  | nil => simp [levelsOf]
  | cons m rest ih => simp only [List.map_cons, levelsOf, Nat.max_le, ih, List.forall_mem_cons]

theorem levels_le_succ_iff {name : Option Text} {fields : Option (List (Option Field))}
    {messages : List Message} {enums : Option (List (Option Enum))}
    {options : Option (OrderedMap Bool)} {n : Nat} :
    levels ⟨name, fields, some (messages.map some), enums, options⟩ ≤ n + 1 ↔
      ∀ m ∈ messages, m.levels ≤ n := by
  rw [levels, Nat.add_le_add_iff_right, levelsOf_le_iff]

theorem normalizeAll_map_some (messages : List Message) :
    normalizeAll (messages.map some) = (messages.map normalize).map some := by
  induction messages with
  | nil => rfl
  | cons m rest ih => simp [normalizeAll, ih]

theorem fits_iff {name : Option Text} {fields : List Field} {messages : List Message}
    {enums : List Enum} {options : Option (OrderedMap Bool)} :
    Fits ⟨name, some (fields.map some), some (messages.map some), some (enums.map some), options⟩ ↔
      (∀ f ∈ fields, f.Fits) ∧ (∀ m ∈ messages, m.Fits) ∧ ∀ e ∈ enums, e.Fits := by
  constructor
  · rintro ⟨hf, hm, he⟩
    exact ⟨each_map_some.1 hf, fun m h => hm _ rfl m (by simpa using h), each_map_some.1 he⟩
  · rintro ⟨hf, hm, he⟩
    refine ⟨each_map_some.2 hf, fun ms eq m h => hm m ?_, each_map_some.2 he⟩
    cases eq
    simpa using h

end Message

namespace File

inductive WellTyped : File → Prop
  | mk {name : Text} {package : Option Text} {dependencies : List Text} {messages : List Message}
      {enums : List Enum} {options : OrderedMap Text} (encodable : name.Encodable)
      (packageEncodable : ∀ t, package = some t → t.Encodable)
      (dependenciesEncodable : ∀ t ∈ dependencies, t.Encodable)
      (messagesTyped : ∀ m ∈ messages, m.WellTyped) (enumsTyped : ∀ e ∈ enums, e.WellTyped)
      (optionsEncodable : ∀ entry ∈ options.entries, entry.2.Encodable) :
      WellTyped ⟨some name, package, some dependencies, some (messages.map some),
        some (enums.map some), some options⟩

def Fits (f : File) : Prop :=
  Each (fun m => m.Fits ∧ m.levels ≤ maxNesting) f.messages ∧ Each Enum.Fits f.enums

def normalize (f : File) : File :=
  { f with messages := mapParts .normalize f.messages, enums := mapParts .normalize f.enums,
           options := known fileOptions f.options }

end File

end Descriptor

namespace Request

inductive WellTyped : Request → Prop
  | mk {names : List Text} {parameter : Text} {files : OrderedMap Descriptor.File}
      (namesEncodable : ∀ t ∈ names, t.Encodable) (parameterEncodable : parameter.Encodable)
      (filesTyped : ∀ f ∈ files.values, f.WellTyped) : WellTyped ⟨some names, some parameter, files⟩

def Fits (r : Request) : Prop := ∀ f ∈ r.protoFiles.values, f.Fits

/-- Files a file under its own name, if it has one. -/
def file (files : OrderedMap Descriptor.File) (f : Descriptor.File) : OrderedMap Descriptor.File :=
  if f.name = some [] then files else files.insert (f.name.getD []) f

def normalize (r : Request) : Request :=
  { r with protoFiles := (r.protoFiles.values.map Descriptor.File.normalize).foldl file ∅ }

end Request

end SchemaPlugin
