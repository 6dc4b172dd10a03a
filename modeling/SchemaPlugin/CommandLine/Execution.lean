import SchemaPlugin.CommandLine.Command
import SchemaPlugin.CommandLine.Files
import SchemaPlugin.Inspect
import SchemaPlugin.Text.TerminalSequence

/-!
What command lines do: they read input and files, print, and may leave a file.
-/

namespace SchemaPlugin.CommandLine

/-- An error that a command ends with. -/
inductive CommandError
  | file (e : FileError)
  | encoding (e : Undecodable)
  | decode (e : Wire.DecodeError)
  | source (e : Request.SourceError)
  | encode (e : EncodeError)
  | inspect (e : InspectError)
  | generator (e : GeneratorError)

def CommandError.message : CommandError → Text
  | .file e => e.message
  | .encoding e => e.message
  | .decode e => e.message
  | .source e => e.message
  | .encode e => e.message
  | .inspect e => e.message
  | .generator e => e.message

/-- How a command ends: with a status or an error. -/
inductive Ending
  | exit (status : Nat)
  | failed (e : CommandError)

/-- What a command leaves: its ending, what it printed, and the files. -/
structure Outcome where
  ending : Ending
  output : Bytes := []
  diagnostics : Text := []
  files : Files

/-- A text with one code point for the end of each line; `afterReturn` tells that a carriage return
came before, which takes a line feed with it. -/
def unifyLineEndsAfter (afterReturn : Bool) : Text → Text
  | [] => []
  | c :: rest =>
    if c = '\r' then '\n' :: unifyLineEndsAfter true rest
    else if c = '\n' ∧ afterReturn then unifyLineEndsAfter false rest
    else c :: unifyLineEndsAfter false rest

def unifyLineEnds (t : Text) : Text := unifyLineEndsAfter false t

/-- The text of a file. -/
def readText (bytes : Bytes) : Except Undecodable Text :=
  match Utf8.decode bytes with
  | .ok t => .ok (unifyLineEnds t)
  | .error e => .error (e.undecodable bytes)

/-- The request of a file. -/
def readRequest (format : Format) (bytes : Bytes) : Except CommandError Request :=
  match format with
  | .binary => (Request.decode bytes).mapError .decode
  | .json => do
    let t ← (readText bytes).mapError .encoding
    (Request.ofText t).mapError .source

/-- The bytes of a printed text. -/
def printed (t : Text) : Bytes := t.flatMap Utf8.bytesOf

def inspect (r : Request) (asJson : Bool) (files : Files) : Outcome :=
  if asJson then { ending := .exit 0, output := printed (r.toJson (some 2) ++ "\n"), files }
  else
    let (shown, e) := r.inspect
    { ending := (e.map fun e => .failed (.inspect e)).getD (.exit 0)
      output := printed shown
      files }

/-- The files with the binary request of a JSON file, and the number of its bytes. -/
def encodeFile (input output : Text) (files : Files) : Except CommandError (Nat × Files) := do
  let source ← (files.read (Path.ofText input)).mapError .file
  let r ← readRequest .json source
  let bytes ← r.encode.mapError .encode
  let files ← (files.write (Path.ofText output) bytes).mapError .file
  return (bytes.length, files)

/-- Executes a command on files and standard input. -/
def Command.execute (files : Files) (input : Bytes) : Command → Outcome
  | run generate settings =>
    let outcome := Plugin.run generate settings input
    { ending := .exit outcome.status
      output := outcome.output
      diagnostics := outcome.diagnostics
      files }
  | inspect name format asJson =>
    match (files.read (Path.ofText name)).mapError .file >>= readRequest format with
    | .error e => { ending := .failed e, files }
    | .ok r => CommandLine.inspect r asJson files
  | encode name target =>
    match encodeFile name target files with
    | .error e => { ending := .failed e, files }
    | .ok (count, files) =>
      { ending := .exit 0, files,
        output := printed ("Wrote " ++ Text.ofNat count ++ " bytes to " ++
          target.withoutSequences ++ "\n") }

/-- The status of a command line that is not understood. -/
def usageStatus : Nat := 2

def errorLine (message : Text) : Text := "Error: " ++ message.withoutSequences ++ "\n"

/-- Does what a command line says. -/
def Reading.execute (files : Files) (input : Bytes) : Reading → Outcome
  | command c => c.execute files input
  | help level => { ending := .exit 0, output := printed level.help, files }
  | noArguments => { ending := .exit usageStatus, diagnostics := Level.program.help, files }
  | usageError level e =>
    { ending := .exit usageStatus, files,
      diagnostics := level.usage ++ level.hint ++ "\n" ++ errorLine e.message }
  | argumentError e =>
    { ending := .exit usageStatus, diagnostics := errorLine e.message, files }
  | relativeModule e => { ending := .failed (.generator e), files }

end SchemaPlugin.CommandLine
