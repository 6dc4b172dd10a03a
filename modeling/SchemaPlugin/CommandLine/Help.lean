import SchemaPlugin.Text

/-!
The levels of the command line, the program and its commands, with their usage and help.
-/

namespace SchemaPlugin.CommandLine

inductive Level
  | program
  | run
  | inspect
  | encode
  deriving DecidableEq

namespace Level

/-- How the level is called. -/
def name : Level → Text
  | program => "protoplug"
  | run => "protoplug run"
  | inspect => "protoplug inspect"
  | encode => "protoplug encode"

def usage (level : Level) : Text :=
  "Usage: " ++ level.name ++ " [OPTIONS]" ++
    (if level = program then Text.ofString " COMMAND [ARGS]..." else []) ++ "\n"

/-- What the level is for, and its options and commands. -/
def description : Level → Text
  | program => "
  protoc plugin runtime.

Options:
  --help  Show this message and exit.

Commands:
  encode   Convert a JSON request into the binary format protoc sends.
  inspect  Display the descriptor tree of a CodeGeneratorRequest.
  run      Run as a protoc plugin: request on stdin, response on stdout.
"
  | run => "
  Run as a protoc plugin: request on stdin, response on stdout.

Options:
  -g, --generator TEXT  Generation callback as module:function  [default:
                        protoplug.plugin.outline:generate]
  --debug / --no-debug  Print diagnostics to stderr
  --json-input          Read a JSON request
  --json-output         Write a JSON response
  --help                Show this message and exit.
"
  | inspect => "
  Display the descriptor tree of a CodeGeneratorRequest.

Options:
  -i, --input TEXT        Captured request file  [required]
  --format [binary|json]  Encoding of the input file  [default: binary]
  --json                  Output as JSON
  --help                  Show this message and exit.
"
  | encode => "
  Convert a JSON request into the binary format protoc sends.

Options:
  -i, --input TEXT   JSON request file  [required]
  -o, --output TEXT  Binary request file  [required]
  --help             Show this message and exit.
"

def help (level : Level) : Text := level.usage ++ level.description

/-- Where to find help. -/
def hint (level : Level) : Text := "Try '" ++ level.name ++ " --help' for help.\n"

end Level

end SchemaPlugin.CommandLine
