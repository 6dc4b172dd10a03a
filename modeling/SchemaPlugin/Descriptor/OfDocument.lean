import SchemaPlugin.Descriptor
import SchemaPlugin.Document.Shape

/-!
Descriptors from documents. A part is a member under its name, which a document may also write in
small letters with underscores. Names that no part has are an error before any part is read.
-/

namespace SchemaPlugin.Descriptor

open Document (membersOf member? orDefault toText? toTexts? toParts? toOptions?)

/-- A truth value is a number as it stands. -/
def Number.ofDocument : Document → Read Number
  | .int n => .ok (.int n)
  | .bool b => .ok (.flag b)
  | d => do return .int (← d.integer.mapError .integer)

def toNumber? : Option Document → Read (Option Number) :=
  orDefault (some (.int 0)) Number.ofDocument

def Label.ofDocument (d : Document) : Read Label :=
  match d.toInt?.bind Label.ofNumber? with
  | some label => .ok label
  | none => .error (.notLabel d)

def EnumValue.ofDocument (d : Document) : Read EnumValue := do
  let members ← membersOf [["name"], ["number"]] d
  let name ← toText? (some []) (member? ["name"] members)
  let number ← toNumber? (member? ["number"] members)
  return { name, number }

def Enum.ofDocument (d : Document) : Read Enum := do
  let members ← membersOf [["name"], ["values"]] d
  let name ← toText? (some []) (member? ["name"] members)
  let values ← toParts? EnumValue.ofDocument (member? ["values"] members)
  return { name, values }

def typeNameNames : List Text := ["typeName", "type_name"]

def Field.ofDocument (d : Document) : Read Field := do
  let members ←
    membersOf [["name"], ["number"], ["label"], ["type"], typeNameNames, ["options"]] d
  let name ← toText? (some []) (member? ["name"] members)
  let number ← toNumber? (member? ["number"] members)
  let label ← orDefault (some .optional) Label.ofDocument (member? ["label"] members)
  let type ← toNumber? (member? ["type"] members)
  let typeName ← toText? none (member? typeNameNames members)
  let options ← toOptions? Document.truth (member? ["options"] members)
  return { name, number, label, type, typeName, options }

def nestedMessagesNames : List Text := ["nestedMessages", "nested_messages"]

def nestedEnumsNames : List Text := ["nestedEnums", "nested_enums"]

def messageNames : List (List Text) :=
  [["name"], ["fields"], nestedMessagesNames, nestedEnumsNames, ["options"]]

mutual

def Message.ofDocument : Document → Read Message
  | .object members => do
    let _ ← membersOf messageNames (.object members)
    let name ← toText? (some []) (member? ["name"] members)
    let fields ← toParts? Field.ofDocument (member? ["fields"] members)
    let nestedMessages ← Message.nestedOf (.ok (some [])) members
    let nestedEnums ← toParts? Enum.ofDocument (member? nestedEnumsNames members)
    let options ← toOptions? Document.truth (member? ["options"] members)
    return { name, fields, nestedMessages, nestedEnums, options }
  | d => .error (.notPart d.kind)

/-- The nested messages of the last member that gives them; `found` is what an earlier one gave. -/
def Message.nestedOf (found : Read (Option (List (Option Message)))) :
    List (Text × Document) → Read (Option (List (Option Message)))
  | [] => found
  | (key, d) :: rest =>
    if key ∈ nestedMessagesNames then
      match d with
      | .null => Message.nestedOf (.ok none) rest
      | .array items => Message.nestedOf (do return some (← Message.listOf items)) rest
      | d => Message.nestedOf (toParts? (fun d => .error (.notPart d.kind)) (some d)) rest
    else Message.nestedOf found rest

def Message.listOf : List Document → Read (List (Option Message))
  | [] => .ok []
  | .null :: rest => do return none :: (← listOf rest)
  | d :: rest => do
    let m ← Message.ofDocument d
    return some m :: (← listOf rest)

end

def File.ofDocument (d : Document) : Read File := do
  let members ←
    membersOf [["name"], ["package"], ["dependencies"], ["messages"], ["enums"], ["options"]] d
  let name ← toText? (some []) (member? ["name"] members)
  let package ← toText? none (member? ["package"] members)
  let dependencies ← toTexts? (member? ["dependencies"] members)
  let messages ← toParts? Message.ofDocument (member? ["messages"] members)
  let enums ← toParts? Enum.ofDocument (member? ["enums"] members)
  let options ← toOptions? Document.toText (member? ["options"] members)
  return { name, package, dependencies, messages, enums, options }

end SchemaPlugin.Descriptor
