import SchemaPlugin.CommandLine.Arguments
import SchemaPlugin.CommandLine.Generator
import SchemaPlugin.CommandLine.Help

/-!
Commands from arguments and the environment. A flag that is not given is read from its variable; an
empty variable is none.
-/

namespace SchemaPlugin.CommandLine

/-- What is wrong with how a level is used. -/
inductive UsageError
  | noSuchOption (unknown : UnknownName)
  | missingOption (names : List Text)
  | notAChoice (option value : Text) (choices : List Text)
  | notABoolean (option value : Text)
  | extraArguments (args : List Text)
  | noSuchCommand (unknown : UnknownName)
  | missingCommand
  | generator (e : GeneratorError)
  deriving DecidableEq

/-- The words for truth values, in ascending order. -/
def booleanWords : List (Text × Bool) :=
  [("", false), ("0", false), ("1", true), ("f", false), ("false", false), ("n", false),
    ("no", false), ("off", false), ("on", true), ("t", true), ("true", true), ("y", true),
    ("yes", true)]

def readBoolean (value : Text) : Option Bool :=
  booleanWords.lookup (value.trim CodePoint.isBlank).toLower

def apostrophized (t : Text) : Text := "'" ++ t ++ "'"

def invalidValue (option : Text) (message : Text) : Text :=
  "Invalid value for " ++ option ++ ": " ++ message

def UsageError.message : UsageError → Text
  | .noSuchOption unknown => unknown.message "option"
  | .missingOption names => "Missing option " ++ Text.join " / " (names.map apostrophized) ++ "."
  | .notAChoice option value choices =>
    invalidValue (apostrophized option)
      (value.quoted ++ " is not one of " ++ Text.join ", " (choices.map Text.quoted) ++ ".")
  | .notABoolean option value =>
    invalidValue (apostrophized option)
      (value.quoted ++ " is not a valid boolean. Recognized values: " ++
        Text.join ", " (booleanWords.map Prod.fst))
  | .extraArguments args =>
    "Got unexpected extra argument" ++ (if args.length = 1 then [] else Text.ofString "s") ++
      " (" ++ Text.join " " args ++ ")"
  | .noSuchCommand unknown => unknown.message "command"
  | .missingCommand => "Missing command."
  | .generator e => invalidValue "--generator" e.message

/-- The encodings of a request file. -/
inductive Format
  | binary
  | json
  deriving DecidableEq

def Format.name : Format → Text
  | binary => "binary"
  | json => "json"

def Format.all : List Format := [.binary, .json]

def Format.ofName? (name : Text) : Option Format := Format.all.find? (·.name = name)

inductive Command
  | run (generate : Plugin.Generator) (settings : Settings)
  | inspect (input : Text) (format : Format) (asJson : Bool)
  | encode (input output : Text)

/-- What a command line says: a command, or what to tell instead. -/
inductive Reading
  | command (c : Command)
  | help (level : Level)
  | noArguments
  | usageError (level : Level) (e : UsageError)
  | argumentError (e : ArgumentError)
  | relativeModule (e : GeneratorError)

def helpName : Text := "--help"

/-- Why no command is read from the arguments of a level. -/
inductive Stop
  | help
  | usage (e : UsageError)
  | argument (e : ArgumentError)

def Stop.reading (level : Level) : Stop → Reading
  | help => .help level
  | usage e => .usageError level e
  | argument e => .argumentError e

/-- Arguments of a level, unless they ask for help. An option that does not exist is an error of
usage. -/
def arguments {κ : Type} [DecidableEq κ] (spellings : List (Spelling κ)) (help : κ)
    (interspersed : Bool) (args : List Text) : Except Stop (Arguments κ) :=
  match readArguments (⟨helpName, help, some true⟩ :: spellings) interspersed args with
  | .error (.noSuchOption unknown) => .error (.usage (.noSuchOption unknown))
  | .error e => .error (.argument e)
  | .ok arguments => if (arguments.flag? help).isSome then .error .help else .ok arguments

/-- Checks options in the order of `checked`, and then that no arguments are left. -/
def checkAll {κ : Type} [DecidableEq κ] (arguments : Arguments κ) (declared : List κ)
    (check : κ → Except UsageError Unit) : Except Stop Unit :=
  match (arguments.checked declared).forM check with
  | .error e => .error (.usage e)
  | .ok () =>
    if arguments.rest = [] then .ok () else .error (.usage (.extraArguments arguments.rest))

inductive RunOption
  | generator
  | debug
  | jsonInput
  | jsonOutput
  | help
  deriving DecidableEq

namespace RunOption

def spellings : List (Spelling RunOption) :=
  [⟨"--generator", generator, none⟩, ⟨"-g", generator, none⟩, ⟨"--debug", debug, some true⟩,
    ⟨"--no-debug", debug, some false⟩, ⟨"--json-input", jsonInput, some true⟩,
    ⟨"--json-output", jsonOutput, some true⟩]

/-- The flags with their names and variables. -/
def flag? : RunOption → Option (Text × Text)
  | debug => some ("--debug", Settings.debugVariable)
  | jsonInput => some ("--json-input", Settings.jsonInputVariable)
  | jsonOutput => some ("--json-output", Settings.jsonOutputVariable)
  | _ => none

/-- The value of a flag: as given, else as in its variable, else off. -/
def read (environment : OrderedMap Text) (arguments : Arguments RunOption) (option : RunOption) :
    Except UsageError Bool :=
  match arguments.flag? option, option.flag? with
  | some b, _ => .ok b
  | none, none => .ok false
  | none, some (name, variableName) =>
    match environment.get? variableName with
    | none | some [] => .ok false
    | some value =>
      match readBoolean value with
      | some b => .ok b
      | none => .error (.notABoolean name value)

end RunOption

/-- The settings that the flags and variables of a run give. -/
def readSettings (environment : OrderedMap Text) (args : Arguments RunOption) :
    Except Stop Settings := do
  checkAll args [.generator, .debug, .jsonInput, .jsonOutput]
    fun option => (option.read environment args).map fun _ => ()
  let flag (option : RunOption) : Bool := ((option.read environment args).toOption).getD false
  return { debug := flag .debug, jsonInput := flag .jsonInput, jsonOutput := flag .jsonOutput }

def readRun (environment : OrderedMap Text) (args : List Text) : Reading :=
  match arguments RunOption.spellings .help true args with
  | .error stop => stop.reading .run
  | .ok args =>
    match readSettings environment args with
    | .error stop => stop.reading .run
    | .ok settings =>
      match Generator.load ((args.value? .generator).getD Generator.defaultSpec) with
      | .ok generate => .command (.run generate settings)
      | .error (.relative name) => .relativeModule (.relative name)
      | .error e => .usageError .run (.generator e)

inductive FileOption
  | input
  | output
  | format
  | json
  | help
  deriving DecidableEq

namespace FileOption

def inputNames : List Text := ["--input", "-i"]

def outputNames : List Text := ["--output", "-o"]

def formatName : Text := "--format"

/-- Checks what an option of a file command was given. -/
def check (args : Arguments FileOption) : FileOption → Except UsageError Unit
  | input => if (args.value? input).isSome then .ok () else .error (.missingOption inputNames)
  | output => if (args.value? output).isSome then .ok () else .error (.missingOption outputNames)
  | format =>
    match args.value? format with
    | none => .ok ()
    | some value =>
      if (Format.ofName? value).isSome then .ok ()
      else .error (.notAChoice formatName value (Format.all.map Format.name))
  | _ => .ok ()

end FileOption

def readInspect (args : List Text) : Reading :=
  let spellings := FileOption.inputNames.map (⟨·, FileOption.input, none⟩) ++
    [⟨FileOption.formatName, .format, none⟩, ⟨"--json", .json, some true⟩]
  match arguments spellings .help true args with
  | .error stop => stop.reading .inspect
  | .ok args =>
    match checkAll args [.input, .format, .json] (FileOption.check args) with
    | .error stop => stop.reading .inspect
    | .ok () => .command (.inspect ((args.value? .input).getD [])
        (((args.value? .format).bind Format.ofName?).getD .binary) (args.flag? .json).isSome)

def readEncode (args : List Text) : Reading :=
  let spellings := FileOption.inputNames.map (⟨·, FileOption.input, none⟩) ++
    FileOption.outputNames.map (⟨·, FileOption.output, none⟩)
  match arguments spellings .help true args with
  | .error stop => stop.reading .encode
  | .ok args =>
    match checkAll args [.input, .output] (FileOption.check args) with
    | .error stop => stop.reading .encode
    | .ok () => .command (.encode ((args.value? .input).getD []) ((args.value? .output).getD []))

/-- The arguments of the program, which has no options but help. -/
def programArguments (args : List Text) : Except Stop (Arguments Unit) := arguments [] () false args

def commandNames : List Text := ["encode", "inspect", "run"]

/-- A word that names no command; one that looks like an option is read as one first. -/
def readUnknown (args : List Text) (name : Text) : Reading :=
  match if name.head? = some dash then programArguments args else .ok ⟨[], []⟩ with
  | .error stop => stop.reading .program
  | .ok _ => .usageError .program (.noSuchCommand (.among commandNames name))

/-- What a command line says. -/
def read (environment : OrderedMap Text) (args : List Text) : Reading :=
  if args = [] then .noArguments
  else match programArguments args with
    | .error stop => stop.reading .program
    | .ok args =>
      match args.rest with
      | [] => .usageError .program .missingCommand
      | name :: rest =>
        if name = Text.ofString "run" then readRun environment rest
        else if name = Text.ofString "inspect" then readInspect rest
        else if name = Text.ofString "encode" then readEncode rest
        else readUnknown args.rest name

end SchemaPlugin.CommandLine
