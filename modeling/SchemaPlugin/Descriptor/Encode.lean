import SchemaPlugin.Descriptor
import SchemaPlugin.Wire.Writer

/-!
Descriptors as bytes. Every part is written, an absent package or type name and an empty map of
options apart; of the options, those that have a field number. A null part has no bytes, and a text
with a surrogate has none: the first of these that is met is the error.
-/

namespace SchemaPlugin

/-- Why something has no encoding. -/
inductive EncodeError
  | nullText
  | nullNumber
  | nullList
  | nullPart
  | unencodable (e : Utf8.Unencodable)
  deriving DecidableEq

def EncodeError.message : EncodeError → Text
  | .nullText => "'NoneType' object has no attribute 'encode'"
  | .nullNumber => "'<' not supported between instances of 'NoneType' and 'int'"
  | .nullList => "'NoneType' object is not iterable"
  | .nullPart => "'NoneType' object has no attribute 'name'"
  | .unencodable e => e.message

abbrev Encode := Except EncodeError

namespace Encode

/-- A field with a length-prefixed value. -/
def partField (number : Nat) (payload : Bytes) : Bytes :=
  Wire.Tag.encode ⟨number, .lengthDelimited⟩ ++ Wire.delimitedBytes payload

def varintField (number : Nat) (value : Int) : Bytes :=
  Wire.Tag.encode ⟨number, .varint⟩ ++ Wire.Varint.encode value

def textField (number : Nat) (t : Text) : Encode Bytes :=
  match Utf8.encode t with
  | .ok payload => .ok (partField number payload)
  | .error e => .error (.unencodable e)

/-- A text that may be null. -/
def textField? (number : Nat) : Option Text → Encode Bytes
  | none => .error .nullText
  | some t => textField number t

/-- A number that may be null. -/
def numberField? (number : Nat) : Option Descriptor.Number → Encode Bytes
  | none => .error .nullNumber
  | some n => .ok (varintField number n.value)

/-- One field for each part of a list that may be null, and so may its parts. -/
def partFields {α : Type} (number : Nat) (encode : α → Encode Bytes) :
    List (Option α) → Encode Bytes
  | [] => .ok []
  | none :: _ => .error .nullPart
  | some a :: rest => do
    let payload ← encode a
    return partField number payload ++ (← partFields number encode rest)

def partFields? {α : Type} (number : Nat) (encode : α → Encode Bytes) :
    Option (List (Option α)) → Encode Bytes
  | none => .error .nullList
  | some parts => partFields number encode parts

def textFields (number : Nat) : List Text → Encode Bytes
  | [] => .ok []
  | t :: rest => do
    let bytes ← textField number t
    return bytes ++ (← textFields number rest)

def textFields? (number : Nat) : Option (List Text) → Encode Bytes
  | none => .error .nullList
  | some texts => textFields number texts

/-- The fields of those options that the table gives a number. -/
def optionFields {α : Type} (table : List (Nat × Text)) (encode : Nat → α → Encode Bytes) :
    List (Text × α) → Encode Bytes
  | [] => .ok []
  | (name, value) :: rest =>
    match Descriptor.numberOf? table name with
    | none => optionFields table encode rest
    | some number => do
      let bytes ← encode number value
      return bytes ++ (← optionFields table encode rest)

/-- The options in a field of their own; none if there are no options. -/
def optionsField {α : Type} (number : Nat) (table : List (Nat × Text))
    (encode : Nat → α → Encode Bytes) : Option (OrderedMap α) → Encode Bytes
  | none => .ok []
  | some options =>
    if options.isEmpty then .ok []
    else do return partField number (← optionFields table encode options.entries)

def flagField (number : Nat) (b : Bool) : Encode Bytes :=
  .ok (varintField number (if b then 1 else 0))

end Encode

namespace Descriptor

open Encode

def EnumValue.encode (v : EnumValue) : Encode Bytes := do
  let name ← textField? 1 v.name
  let number ← numberField? 2 v.number
  return name ++ number

def Enum.encode (e : Enum) : Encode Bytes := do
  let name ← textField? 1 e.name
  let values ← partFields? 2 EnumValue.encode e.values
  return name ++ values

def Field.encode (f : Field) : Encode Bytes := do
  let name ← textField? 1 f.name
  let number ← numberField? 3 f.number
  let label ← numberField? 4 (f.label.map fun label => .int label.number)
  let type ← numberField? 5 f.type
  let typeName ← match f.typeName with
    | none => .ok []
    | some typeName => textField 6 typeName
  let options ← optionsField 8 fieldOptions flagField f.options
  return name ++ number ++ label ++ type ++ typeName ++ options

mutual

def Message.encode : Message → Encode Bytes
  | ⟨name, fields, nestedMessages, nestedEnums, options⟩ => do
    let name ← textField? 1 name
    let fields ← partFields? 2 Field.encode fields
    let nestedMessages ← match nestedMessages with
      | none => .error .nullList
      | some messages => Message.nestedFields messages
    let nestedEnums ← partFields? 4 Enum.encode nestedEnums
    let options ← optionsField 7 messageOptions flagField options
    return name ++ fields ++ nestedMessages ++ nestedEnums ++ options

/-- The fields of the messages nested in one. -/
def Message.nestedFields : List (Option Message) → Encode Bytes
  | [] => .ok []
  | none :: _ => .error .nullPart
  | some m :: rest => do
    let payload ← m.encode
    return partField 3 payload ++ (← nestedFields rest)

end

theorem Message.nestedFields_eq (messages : List (Option Message)) :
    nestedFields messages = partFields 3 Message.encode messages := by
  induction messages with
  | nil => rfl
  | cons m rest ih => cases m <;> simp [nestedFields, partFields, ih]

def File.encode (f : File) : Encode Bytes := do
  let name ← textField? 1 f.name
  let package ← match f.package with
    | none => .ok []
    | some package => textField 2 package
  let dependencies ← textFields? 3 f.dependencies
  let messages ← partFields? 4 Message.encode f.messages
  let enums ← partFields? 5 Enum.encode f.enums
  let options ← optionsField 7 fileOptions textField f.options
  return name ++ package ++ dependencies ++ messages ++ enums ++ options

end Descriptor

end SchemaPlugin
