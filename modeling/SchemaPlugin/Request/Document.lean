import SchemaPlugin.Descriptor.OfDocument
import SchemaPlugin.Descriptor.ToDocument
import SchemaPlugin.Document.Encoded
import SchemaPlugin.Request

/-!
Requests as documents, the form in which one writes them by hand. A file without a name takes the
name that it is filed under.
-/

namespace SchemaPlugin.Request

open Document (membersOf member? toText? toTexts?)

def toDocument (r : Request) : Document :=
  .object [
    ("filesToGenerate", Document.ofTexts? r.filesToGenerate),
    ("parameter", Document.ofText? r.parameter),
    ("protoFiles", Document.ofOptions? Descriptor.File.toDocument (some r.protoFiles))]

/-- A file under a name, which becomes its own if it has none. -/
def named (name : Text) (file : Descriptor.File) : Descriptor.File :=
  match file.name with
  | none | some [] => { file with name := some name }
  | some (_ :: _) => file

/-- Files under their names, with null ones among them. -/
def fileMembers : List (Text × Document) → Read (List (Text × Option Descriptor.File))
  | [] => .ok []
  | (name, .null) :: rest => do return (name, none) :: (← fileMembers rest)
  | (name, d) :: rest => do
    let file ← Descriptor.File.ofDocument d
    return (name, some file) :: (← fileMembers rest)

/-- The files, of which none may be null. -/
def filed : List (Text × Option Descriptor.File) → Read (List (Text × Descriptor.File))
  | [] => .ok []
  | (_, none) :: _ => .error .nullFile
  | (name, some file) :: rest => do return (name, named name file) :: (← filed rest)

def protoFilesOf : Option Document → Read (OrderedMap Descriptor.File)
  | none => .ok ∅
  | some .null => .error .nullFiles
  | some (.object members) => do return OrderedMap.ofList (← filed (← fileMembers members))
  | some d => .error (.notMap d.kind)

def filesToGenerateNames : List Text := ["filesToGenerate", "files_to_generate"]

def protoFilesNames : List Text := ["protoFiles", "proto_files"]

def ofDocument : Document → Read Request
  | .object members => do
    let _ ← membersOf [filesToGenerateNames, ["parameter"], protoFilesNames] (.object members)
    let filesToGenerate ← toTexts? (member? filesToGenerateNames members)
    let parameter ← toText? (some []) (member? ["parameter"] members)
    let protoFiles ← protoFilesOf (member? protoFilesNames members)
    return { filesToGenerate, parameter, protoFiles }
  | _ => .error .notObject

/-- Why a source gives no request. -/
inductive SourceError
  | source (e : Document.SourceError)
  | shape (e : ShapeError)

def SourceError.message : SourceError → Text
  | .source e => e.message
  | .shape e => e.message

/-- The request of a JSON text. -/
def ofText (t : Text) : Except SourceError Request := do
  let d ← (Document.parse t).mapError fun e => .source (.grammar e)
  (ofDocument d).mapError .shape

/-- The request of a JSON text in bytes. -/
def ofBytes (bytes : Bytes) : Except SourceError Request := do
  let d ← (Document.ofBytes bytes).mapError .source
  (ofDocument d).mapError .shape

def toJson (indent : Option Int) (r : Request) : Text := r.toDocument.print indent

end SchemaPlugin.Request
