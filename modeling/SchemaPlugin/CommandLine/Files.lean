import SchemaPlugin.OrderedMap
import SchemaPlugin.Path
import SchemaPlugin.Text.Utf8

/-!
Files by path. The directories are those that files are in, the current one and what is above it,
and those that are named.
-/

namespace SchemaPlugin.CommandLine

inductive FileError
  | missing (path : Path)
  | isDirectory (path : Path)
  | notDirectory (path : Path)
  | tooLong (path : Path)
  | nullCharacter
  deriving DecidableEq

def FileError.message : FileError → Text
  | .missing path => "[Errno 2] No such file or directory: " ++ path.toText.quoted
  | .isDirectory path => "[Errno 21] Is a directory: " ++ path.toText.quoted
  | .notDirectory path => "[Errno 20] Not a directory: " ++ path.toText.quoted
  | .tooLong path => "[Errno 36] File name too long: " ++ path.toText.quoted
  | .nullCharacter => "embedded null byte"

/-- The most bytes of one component of a path. -/
def maxComponentBytes : Nat := 255

/-- The most bytes of a path. -/
def maxPathBytes : Nat := 4095

/-- The contents of files, and directories. Names are normalised paths. -/
structure Files where
  contents : OrderedMap Bytes := ∅
  directories : List Text := []

namespace Files

def ofList (files : List (Text × Bytes)) : Files :=
  { contents := OrderedMap.ofList (files.map fun file => ((Path.ofText file.1).toText, file.2)) }

def isFile (files : Files) (path : Path) : Bool := files.contents.contains path.toText

def parentComponent : Text := ".."

def isDirectory (files : Files) (path : Path) : Bool :=
  path.components.all (· = parentComponent) || path.toText ∈ files.directories ||
    files.contents.keys.any fun name =>
      let file := Path.ofText name
      path.root = file.root && path.components.isPrefixOf file.components.dropLast

/-- Whether a path leads through a file. -/
def passesFile (files : Files) (path : Path) : Bool :=
  (List.range path.components.length).any fun n => files.isFile ⟨path.root, path.components.take n⟩

def byteLength (t : Text) : Nat := (t.flatMap Utf8.bytesOf).length

/-- What stands in the way of a component: it is too long, or it is not the last one and no
directory. -/
def obstacleAt? (files : Files) (path : Path) (n : Nat) : Option FileError :=
  let reached : Path := ⟨path.root, path.components.take (n + 1)⟩
  if (path.components[n]?).any fun c => maxComponentBytes < byteLength c then some (.tooLong path)
  else if n + 1 = path.components.length ∨ files.isDirectory reached then none
  else if files.isFile reached then some (.notDirectory path)
  else some (.missing path)

/-- What stands in the way of a path, the first of what there is. -/
def obstacle? (files : Files) (path : Path) : Option FileError :=
  if CodePoint.ofNat 0 ∈ path.toText then some .nullCharacter
  else if maxPathBytes < byteLength path.toText then some (.tooLong path)
  else (List.range path.components.length).findSome? (files.obstacleAt? path)

def read (files : Files) (path : Path) : Except FileError Bytes :=
  match files.obstacle? path, files.contents.get? path.toText with
  | some e, _ => .error e
  | none, some bytes => .ok bytes
  | none, none => .error (if files.isDirectory path then .isDirectory path else .missing path)

def write (files : Files) (path : Path) (bytes : Bytes) : Except FileError Files :=
  match files.obstacle? path with
  | some e => .error e
  | none =>
    if files.isDirectory path then .error (.isDirectory path)
    else .ok { files with contents := files.contents.insert path.toText bytes }

end Files

end SchemaPlugin.CommandLine
