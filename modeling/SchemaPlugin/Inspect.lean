import SchemaPlugin.Console.Tree
import SchemaPlugin.Request

/-!
Requests as trees on a console: what to generate and the parameter, then a tree for each file, with
its imports, options, enums and messages. Names show as they are.
-/

namespace SchemaPlugin

/-- Why a request is not shown, or only in part. -/
inductive InspectError
  | nullNames
  | nullText
  | nullPart
  | nullField
  | nullList
  | nullOptions
  | markup (e : Markup.MarkupError)
  deriving DecidableEq

def InspectError.message : InspectError → Text
  | .nullNames => "can only join an iterable"
  | .nullText => "expected string or bytes-like object, got 'NoneType'"
  | .nullPart => "'NoneType' object has no attribute 'name'"
  | .nullField => "'NoneType' object has no attribute 'type_name'"
  | .nullList => "'NoneType' object is not iterable"
  | .nullOptions => "'NoneType' object has no attribute 'items'"
  | .markup e => e.message

namespace Inspect

open Console (Tree)
open Descriptor

abbrev Show := Except InspectError

/-- Markup in a style. -/
def styled (style markup : Text) : Text := "[" ++ style ++ "]" ++ markup ++ "[/" ++ style ++ "]"

def escaped : Option Text → Show Text
  | none => .error .nullText
  | some t => .ok (Markup.escape t)

def parts {α : Type} : Option (List α) → Show (List α)
  | none => .error .nullList
  | some list => .ok list

def numberText : Option Number → Text
  | none => "None"
  | some n => n.text

/-- A node without children. -/
def leaf (label : Text) : Tree := ⟨label, []⟩

def valueTree : Option EnumValue → Show Tree
  | none => .error .nullPart
  | some v => do
    return leaf ((← escaped v.name) ++ " = " ++ styled "yellow" (numberText v.number))

def enumTree : Option Enum → Show Tree
  | none => .error .nullPart
  | some e => do
    let label := styled "magenta" "enum" ++ " " ++ (← escaped e.name)
    return ⟨label, ← (← parts e.values).mapM valueTree⟩

def fieldTree : Option Field → Show Tree
  | none => .error .nullField
  | some f => do
    let name ← escaped f.name
    match f.label with
    | none => .error .nullPart
    | some label =>
      return leaf (styled "yellow" (numberText f.number) ++ " " ++ name ++ " " ++
        styled "dim" (label.name ++ " " ++ Markup.escape f.kind))

mutual

def messageTree : Message → Show Tree
  | ⟨name, fields, nestedMessages, nestedEnums, _⟩ => do
    let label := styled "cyan" "message" ++ " " ++ (← escaped name)
    let fields ← (← parts fields).mapM fieldTree
    let enums ← (← parts nestedEnums).mapM enumTree
    let messages ← match nestedMessages with
      | none => .error .nullList
      | some messages => messageTrees messages
    return ⟨label, fields ++ enums ++ messages⟩

def messageTrees : List (Option Message) → Show (List Tree)
  | [] => .ok []
  | none :: _ => .error .nullPart
  | some m :: rest => do
    let tree ← messageTree m
    return tree :: (← messageTrees rest)

end

def importTree (dependency : Text) : Tree :=
  leaf (styled "dim" "import" ++ " " ++ Markup.escape dependency)

def optionTree (option : Text × Text) : Tree :=
  leaf (styled "dim" "option" ++ " " ++ Markup.escape option.1 ++ " = " ++ Markup.escape option.2)

def fileTree (name : Text) (f : File) : Show Tree := do
  let label := styled "bold" (Markup.escape name) ++ " " ++
    styled "dim" (Markup.escape (f.package.getD []))
  let imports := (← parts f.dependencies).map importTree
  let options ← match f.options with
    | none => .error .nullOptions
    | some options => .ok (options.entries.map optionTree)
  let enums ← (← parts f.enums).mapM enumTree
  let messages ← messageTrees (← parts f.messages)
  return ⟨label, imports ++ options ++ enums ++ messages⟩

def print (markup : Text) : Show Text := (Console.print markup).mapError .markup

/-- What follows a heading, or a dash. -/
def orDash (markup : Text) : Text := if markup = [] then "-" else markup

def targetsLine (r : Request) : Show Text :=
  match r.filesToGenerate with
  | none => .error .nullNames
  | some names => print ("Generate: " ++ orDash (Markup.escape (Text.join ", " names)))

def parameterLine (r : Request) : Show Text := do
  print ("Parameter: " ++ orDash (← escaped r.parameter))

def printFile (entry : Text × File) : Show Text := do
  let tree ← fileTree entry.1 entry.2
  tree.print.mapError .markup

/-- The pieces of what is shown, in order. -/
def pieces (r : Request) : List (Show Text) :=
  [print (styled "bold cyan" "Request"), targetsLine r, parameterLine r, .ok "\n"] ++
    r.protoFiles.entries.map printFile

/-- The text of pieces up to the first that fails, and why it does. -/
def untilError {ε : Type} : List (Except ε Text) → Text × Option ε
  | [] => ([], none)
  | .ok t :: rest =>
    let (shown, e) := untilError rest
    (t ++ shown, e)
  | .error e :: _ => ([], some e)

end Inspect

/-- What is shown of a request, and why no more is. -/
def Request.inspect (r : Request) : Text × Option InspectError :=
  Inspect.untilError (Inspect.pieces r)

end SchemaPlugin
