import SchemaPlugin.Parameters
import SchemaPlugin.Path
import SchemaPlugin.Request
import SchemaPlugin.Response

/-!
Outlines: a file as text, one line for each part, every part inside a message two spaces further in
than the message. A null name or number is written `None`; a null list, label or map of options has
no outline, and neither has a null field.
-/

namespace SchemaPlugin

/-- Why a file has no outline. -/
inductive RenderError
  | nullList
  | nullLabel
  | nullField
  | nullFieldOptions
  | nullFileOptions
  deriving DecidableEq

def RenderError.message : RenderError → Text
  | .nullList => "'NoneType' object is not iterable"
  | .nullLabel => "'None' has no attribute 'name'"
  | .nullField => "'None' has no attribute 'label'"
  | .nullFieldOptions => "'None' has no attribute 'get'"
  | .nullFileOptions => "'None' has no attribute 'items'"

namespace Outline

open Descriptor

abbrev Render := Except RenderError

def shown : Option Text → Text
  | none => "None"
  | some t => t

def shownNumber : Option Number → Text
  | none => "None"
  | some n => n.text

/-- The parts of a list that is not null. -/
def parts {α : Type} : Option (List α) → Render (List α)
  | none => .error .nullList
  | some list => .ok list

def deeper (indent : Text) : Text := indent ++ "  "

/-- A null value has neither name nor number. -/
def valueLine (indent : Text) : Option EnumValue → Text
  | none => deeper indent ++ " = "
  | some v => deeper indent ++ shown v.name ++ " = " ++ shownNumber v.number

/-- A null enum has no name and no values. -/
def enumLines (indent : Text) : Option Enum → Render (List Text)
  | none => .ok [indent ++ "enum "]
  | some e => do
    return (indent ++ "enum " ++ shown e.name) :: (← parts e.values).map (valueLine indent)

def fieldLine (indent : Text) : Option Field → Render Text
  | none => .error .nullField
  | some f =>
    match f.label, f.options with
    | none, _ => .error .nullLabel
    | _, none => .error .nullFieldOptions
    | some label, some options =>
      .ok (deeper indent ++ shownNumber f.number ++ ": " ++ shown f.name ++ " " ++ label.name ++
        " " ++ f.kind ++ if options.get? "deprecated" = some true then " [deprecated]" else "")

mutual

def messageLines (indent : Text) : Message → Render (List Text)
  | ⟨name, fields, nestedMessages, nestedEnums, options⟩ => do
    let heading := indent ++ "message " ++ shown name ++
      if (options.bind fun options => options.get? "map_entry") = some true then " (map entry)"
      else ""
    let fieldLines ← (← parts fields).mapM (fieldLine indent)
    let enumBlocks ← (← parts nestedEnums).mapM (enumLines (deeper indent))
    let messageBlocks ← match nestedMessages with
      | none => .error .nullList
      | some messages => messagesLines (deeper indent) messages
    return heading :: fieldLines ++ enumBlocks.flatten ++ messageBlocks

/-- A null message has no name and nothing in it. -/
def messagesLines (indent : Text) : List (Option Message) → Render (List Text)
  | [] => .ok []
  | none :: rest => do return (indent ++ "message ") :: (← messagesLines indent rest)
  | some m :: rest => do
    let block ← messageLines indent m
    return block ++ (← messagesLines indent rest)

end

def packageLines : Option Text → List Text
  | none | some [] => []
  | some package => ["package " ++ package]

def importLine (dependency : Text) : Text := "import " ++ dependency

def optionLine (option : Text × Text) : Text :=
  "option " ++ option.1 ++ " = \"" ++ option.2 ++ "\""

def fileOptionLines : Option (OrderedMap Text) → Render (List Text)
  | none => .error .nullFileOptions
  | some options => .ok (options.entries.map optionLine)

def fileLines (f : File) : Render (List Text) := do
  let importLines := (← parts f.dependencies).map importLine
  let optionLines ← fileOptionLines f.options
  let enumBlocks ← (← parts f.enums).mapM (enumLines [])
  let messageBlocks ← messagesLines [] (← parts f.messages)
  return ("file " ++ shown f.name) :: packageLines f.package ++ importLines ++ optionLines ++
    enumBlocks.flatten ++ messageBlocks

/-- The outline of a file, every line ended. -/
def render (f : File) : Render Text := do
  return (← fileLines f).flatMap fun line => line ++ "\n"

def defaultSuffix : Text := ".outline.txt"

/-- The name of the file that the outline of a file goes to: in the same place, with the stem of the
name and the suffix. -/
def outputName (fileName suffix : Text) : Except Path.NameError Text := do
  let path := Path.ofText fileName
  return (← path.withName (Path.stem (path.name?.getD []) ++ suffix)).toText

/-- Why a request has no outlines. -/
inductive GenerateError
  | target (e : Request.TargetError)
  | name (e : Path.NameError)
  | render (e : RenderError)
  deriving DecidableEq

def GenerateError.message : GenerateError → Text
  | .target e => e.message
  | .name e => e.message
  | .render e => e.message

/-- The outline of one file, with its name. -/
def generateFile (suffix : Text) (f : File) : Except GenerateError GeneratedFile := do
  let name ← (outputName (f.name.getD []) suffix).mapError .name
  let content ← (render f).mapError .render
  return ⟨some name, some content⟩

/-- One outline for each file to generate. The parameter `suffix` replaces the default suffix. -/
def generate (r : Request) : Except GenerateError Response := do
  let suffix := (r.parameters.get? "suffix").getD defaultSuffix
  let files ← r.targetFiles.mapError .target
  return { files := ← files.mapM (generateFile suffix) }

end Outline

end SchemaPlugin
