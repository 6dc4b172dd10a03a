import SchemaPlugin.CommandLine.Execution

/-!
The program: its arguments, the environment, standard input and the files that the command names go
in; what the command leaves is printed and written.
-/

namespace SchemaPlugin.Program

open CommandLine

def string (t : Text) : String := String.ofList (t.map fun c => Char.ofNat c.val)

/-- The settings that are in the environment. -/
def readEnvironment : IO (OrderedMap Text) := do
  let mut environment := OrderedMap.empty
  for name in [Settings.debugVariable, Settings.jsonInputVariable, Settings.jsonOutputVariable] do
    if let some value ← IO.getEnv (string name) then
      environment := environment.insert name (Text.ofString value)
  return environment

/-- The names of the files that a command reads or writes. -/
def fileNames : Reading → List Text
  | .command (.inspect input _ _) => [input]
  | .command (.encode input output) => [input, output]
  | _ => []

def readsInput : Reading → Bool
  | .command (.run _ _) => true
  | _ => false

/-- The files with what there is at a path: a file, a directory or nothing. -/
def loadPath (files : Files) (path : Path) : IO Files := do
  let name := path.toText
  try
    let bytes ← IO.FS.readBinFile (string name)
    return { files with contents := files.contents.insert name bytes.toList }
  catch e =>
    match e with
    | .inappropriateType .. => return { files with directories := name :: files.directories }
    | _ => return files

/-- What there is at the paths of those names and on the way to them; nothing is inside a file. -/
def loadFiles (names : List Text) : IO Files := do
  let mut files : Files := {}
  for name in names do
    let path := Path.ofText name
    for count in List.range path.components.length do
      let part : Path := ⟨path.root, path.components.take (count + 1)⟩
      if !files.passesFile part then files ← loadPath files part
  return files

def byteArray (bytes : Bytes) : ByteArray := ⟨bytes.toArray⟩

/-- Prints and writes what a command left. -/
def finish (before : Files) (outcome : Outcome) : IO UInt32 := do
  for (name, bytes) in outcome.files.contents.entries do
    if before.contents.get? name ≠ some bytes then
      IO.FS.writeBinFile (string name) (byteArray bytes)
  let output ← IO.getStdout
  output.write (byteArray outcome.output)
  output.flush
  IO.eprint (string outcome.diagnostics)
  match outcome.ending with
  | .exit status => return status.toUInt32
  | .failed e => do
    IO.eprintln (string e.message)
    return 1

end SchemaPlugin.Program

open SchemaPlugin in
def main (args : List String) : IO UInt32 := do
  let reading := CommandLine.read (← Program.readEnvironment) (args.map Text.ofString)
  let files ← Program.loadFiles (Program.fileNames reading)
  let input ←
    if Program.readsInput reading then (← IO.getStdin).readBinToEnd else pure ByteArray.empty
  Program.finish files (reading.execute files input.toList)
