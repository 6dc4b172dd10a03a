import SchemaPlugin.Descriptor.Decode
import SchemaPlugin.Descriptor.Encode

/-!
Responses: the files that were generated, or an error.
-/

namespace SchemaPlugin

open Wire (DecodeError Fields decodeText)

structure GeneratedFile where
  name : Option Text := some []
  content : Option Text := some []
  deriving DecidableEq

structure Response where
  error : Option Text := none
  files : List GeneratedFile := []
  deriving DecidableEq

namespace GeneratedFile

def step (g : GeneratedFile) (f : Wire.Field) : Except DecodeError GeneratedFile :=
  match f.number, f.value with
  | 1, .lengthDelimited payload => do
    return { g with name := some (← decodeText payload f.start) }
  | 15, .lengthDelimited payload => do
    return { g with content := some (← decodeText payload f.start) }
  | _, _ => .ok g

def decode (bytes : Bytes) : Except DecodeError GeneratedFile :=
  (Fields.ofBytes bytes).fold Fields.noGuard step {}

def encode (g : GeneratedFile) : Encode Bytes := do
  let name ← Encode.textField? 1 g.name
  let content ← Encode.textField? 15 g.content
  return name ++ content

end GeneratedFile

namespace Response

/-- A response that says only what went wrong. -/
def failure (message : Text) : Response := { error := some message }

def addFile (r : Response) (file : GeneratedFile) : Response :=
  { r with files := r.files ++ [file] }

/-- An empty error is none. -/
def hasError (r : Response) : Bool :=
  match r.error with
  | none | some [] => false
  | some (_ :: _) => true

def step (r : Response) (f : Wire.Field) : Except DecodeError Response :=
  match f.number, f.value with
  | 1, .lengthDelimited payload => do
    return { r with error := some (← decodeText payload f.start) }
  | 15, .lengthDelimited payload => do return r.addFile (← GeneratedFile.decode payload)
  | _, _ => .ok r

def decode (bytes : Bytes) : Except DecodeError Response :=
  (Fields.ofBytes bytes).fold Fields.noGuard step {}

def encode (r : Response) : Encode Bytes := do
  let error ← match r.error with
    | none | some [] => .ok []
    | some error => Encode.textField 1 error
  let files ← Encode.partFields 15 GeneratedFile.encode (r.files.map some)
  return error ++ files

end Response

end SchemaPlugin
