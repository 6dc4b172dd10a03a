import SchemaPlugin.Descriptor
import SchemaPlugin.Document

/-!
Descriptors as documents. Each part is a member under its name, the null value for a null part.
-/

namespace SchemaPlugin.Document

def ofText? : Option Text → Document
  | none => null
  | some t => string t

def ofTexts? : Option (List Text) → Document
  | none => null
  | some texts => array (texts.map string)

/-- The document of a list that may be null, and so may its parts. -/
def ofParts? {α : Type} (f : α → Document) : Option (List (Option α)) → Document
  | none => null
  | some parts => array (parts.map fun part => (part.map f).getD null)

def ofOptions? {α : Type} (f : α → Document) : Option (OrderedMap α) → Document
  | none => null
  | some options => object (options.entries.map fun entry => (entry.1, f entry.2))

end SchemaPlugin.Document

namespace SchemaPlugin.Descriptor

open Document

def Number.toDocument : Number → Document
  | .int n => .int n
  | .flag b => .bool b

def numberDocument (n : Option Number) : Document := (n.map Number.toDocument).getD null

def EnumValue.toDocument (v : EnumValue) : Document :=
  object [("name", ofText? v.name), ("number", numberDocument v.number)]

def Enum.toDocument (e : Enum) : Document :=
  object [("name", ofText? e.name), ("values", ofParts? EnumValue.toDocument e.values)]

def Field.toDocument (f : Field) : Document :=
  object [
    ("name", ofText? f.name),
    ("number", numberDocument f.number),
    ("label", numberDocument (f.label.map fun label => .int label.number)),
    ("type", numberDocument f.type),
    ("typeName", ofText? f.typeName),
    ("options", ofOptions? Document.bool f.options)]

mutual

def Message.toDocument : Message → Document
  | ⟨name, fields, nestedMessages, nestedEnums, options⟩ =>
    object [
      ("name", ofText? name),
      ("fields", ofParts? Field.toDocument fields),
      ("nestedMessages", match nestedMessages with
        | none => null
        | some messages => array (Message.toDocuments messages)),
      ("nestedEnums", ofParts? Enum.toDocument nestedEnums),
      ("options", ofOptions? Document.bool options)]

def Message.toDocuments : List (Option Message) → List Document
  | [] => []
  | none :: rest => null :: toDocuments rest
  | some m :: rest => m.toDocument :: toDocuments rest

end

theorem Message.toDocuments_eq (messages : List (Option Message)) :
    toDocuments messages = messages.map fun m => (m.map toDocument).getD null := by
  induction messages with
  | nil => rfl
  | cons m rest ih => cases m <;> simp [toDocuments, ih]

def File.toDocument (f : File) : Document :=
  object [
    ("name", ofText? f.name),
    ("package", ofText? f.package),
    ("dependencies", ofTexts? f.dependencies),
    ("messages", ofParts? Message.toDocument f.messages),
    ("enums", ofParts? Enum.toDocument f.enums),
    ("options", ofOptions? Document.string f.options)]

end SchemaPlugin.Descriptor
