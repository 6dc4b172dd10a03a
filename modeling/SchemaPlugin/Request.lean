import SchemaPlugin.Descriptor.Decode
import SchemaPlugin.Descriptor.Encode
import SchemaPlugin.Parameters

/-!
Requests: what to generate, a parameter, and the files with everything they depend on, by name in
the order in which they came.
-/

namespace SchemaPlugin

open Wire (DecodeError Fields decodeText)

structure Request where
  filesToGenerate : Option (List Text) := some []
  parameter : Option Text := some []
  protoFiles : OrderedMap Descriptor.File := ∅

namespace Request

def addFileToGenerate (r : Request) (name : Text) : Request :=
  { r with filesToGenerate := Descriptor.append r.filesToGenerate name }

/-- Files a file under its name. -/
def addFile (r : Request) (file : Descriptor.File) : Request :=
  { r with protoFiles := r.protoFiles.insert (file.name.getD []) file }

def getFile? (r : Request) (name : Text) : Option Descriptor.File := r.protoFiles.get? name

/-- A null parameter has no pairs. -/
def parameters (r : Request) : OrderedMap Text := Parameters.ofQuery (r.parameter.getD [])

/-- Why the files to generate cannot be had. -/
inductive TargetError
  | nullList
  | missing (names : List Text)
  deriving DecidableEq

def TargetError.message : TargetError → Text
  | .nullList => "'NoneType' object is not iterable"
  | .missing names => "File not found in request: " ++ Text.join ", " names

/-- The descriptors of the files to generate, in their order. -/
def targetFiles (r : Request) : Except TargetError (List Descriptor.File) :=
  match r.filesToGenerate with
  | none => .error .nullList
  | some names =>
    match names.filter fun name => !r.protoFiles.contains name with
    | [] => .ok (names.filterMap r.getFile?)
    | missing => .error (.missing missing)

/-- A file without a name is read, but cannot be filed. -/
def step (r : Request) (f : Wire.Field) : Except DecodeError Request :=
  match f.number, f.value with
  | 1, .lengthDelimited payload => do
    return r.addFileToGenerate (← decodeText payload f.start)
  | 2, .lengthDelimited payload => do
    return { r with parameter := some (← decodeText payload f.start) }
  | 15, .lengthDelimited payload => do
    let file ← Descriptor.File.decode payload
    return if file.name = some [] then r else r.addFile file
  | _, _ => .ok r

def decode (bytes : Bytes) : Except DecodeError Request :=
  (Fields.ofBytes bytes).fold Fields.noGuard step {}

/-- The outcome of an attempt to decode a request; before the attempt there is none. -/
inductive Attempt
  | decoded (r : Request)
  | failed (e : DecodeError)
  | none

inductive UnwrapError
  | decode (e : DecodeError)
  | empty

def UnwrapError.message : UnwrapError → Text
  | .decode e => e.message
  | .empty => "DecodeResult holds neither a value nor an error"

namespace Attempt

/-- Whether nothing has gone wrong. -/
def isOk : Attempt → Bool
  | failed _ => false
  | _ => true

def hasValue : Attempt → Bool
  | decoded _ => true
  | _ => false

def unwrap : Attempt → Except UnwrapError Request
  | decoded r => .ok r
  | failed e => .error (.decode e)
  | none => .error .empty

end Attempt

def tryDecode (bytes : Bytes) : Attempt :=
  match decode bytes with
  | .ok r => .decoded r
  | .error e => .failed e

def encode (r : Request) : Encode Bytes := do
  let names ← Encode.textFields? 1 r.filesToGenerate
  let parameter ← match r.parameter with
    | none | some [] => .ok []
    | some parameter => Encode.textField 2 parameter
  let files ← Encode.partFields 15 Descriptor.File.encode (r.protoFiles.values.map some)
  return names ++ parameter ++ files

end Request

end SchemaPlugin
