import SchemaPlugin.CommandLine.UnknownName

/-!
Arguments read as options. A long option takes its value after an equals sign or from the next
argument, a short one from the rest of its own argument or from the next; short options can share
one argument. Two dashes end the options.
-/

namespace SchemaPlugin.CommandLine

/-- A name of an option: what it stands for, and the value it sets if it is a flag. -/
structure Spelling (κ : Type) where
  name : Text
  key : κ
  flag? : Option Bool

/-- What an option was given. -/
inductive Given
  | value (t : Text)
  | flag (b : Bool)
  deriving DecidableEq

inductive ArgumentError
  | noSuchOption (unknown : UnknownName)
  | needsArgument (name : Text)
  | takesNoValue (name : Text)
  deriving DecidableEq

def ArgumentError.message : ArgumentError → Text
  | .noSuchOption unknown => unknown.message "option"
  | .needsArgument name => "Option " ++ name.quoted ++ " requires an argument."
  | .takesNoValue name => "Option " ++ name.quoted ++ " does not take a value."

/-- The options that were given in order, and the other arguments. -/
structure Arguments (κ : Type) where
  given : List (κ × Given)
  rest : List Text

/-- The options of one argument, and the one whose value is the next argument. -/
structure ArgumentOptions (κ : Type) where
  given : List (κ × Given)
  pending : Option (Spelling κ) := none

variable {κ : Type}

def dash : CodePoint := '-'

def doubleDash : Text := [dash, dash]

def isLong (name : Text) : Bool := (Text.dropPrefix? doubleDash name).isSome

/-- Only long names are suggested. -/
def spelling? (spellings : List (Spelling κ)) (name : Text) : Except ArgumentError (Spelling κ) :=
  match spellings.find? (·.name = name) with
  | some s => .ok s
  | none => .error (.noSuchOption (.among ((spellings.map (·.name)).filter isLong) name))

def longOption (spellings : List (Spelling κ)) (arg : Text) :
    Except ArgumentError (ArgumentOptions κ) := do
  let (name, value?) := match Text.cut? '=' arg with
    | some (name, value) => (name, some value)
    | none => (arg, none)
  let s ← spelling? spellings name
  match s.flag?, value? with
  | none, some value => return ⟨[(s.key, .value value)], none⟩
  | none, none => return ⟨[], some s⟩
  | some b, none => return ⟨[(s.key, .flag b)], none⟩
  | some _, some _ => .error (.takesNoValue name)

/-- The options of one argument, by their letters. -/
def shortOptions (spellings : List (Spelling κ)) : Text → Except ArgumentError (ArgumentOptions κ)
  | [] => .ok ⟨[], none⟩
  | c :: rest => do
    let s ← spelling? spellings [dash, c]
    match s.flag? with
    | none => return if rest = [] then ⟨[], some s⟩ else ⟨[(s.key, .value rest)], none⟩
    | some b => do
      let options ← shortOptions spellings rest
      return ⟨(s.key, .flag b) :: options.given, options.pending⟩

def argumentOptions (spellings : List (Spelling κ)) (arg : Text) :
    Except ArgumentError (ArgumentOptions κ) :=
  if isLong arg then longOption spellings arg
  else shortOptions spellings (arg.drop 1)

/-- A dash alone is no option. -/
def isOption (arg : Text) : Bool := arg.head? = some dash && 1 < arg.length

/-- Reads arguments. Options may follow other arguments only if the arguments are `interspersed`. -/
def readArguments (spellings : List (Spelling κ)) (interspersed : Bool) :
    List Text → Except ArgumentError (Arguments κ)
  | [] => .ok ⟨[], []⟩
  | arg :: rest =>
    if arg = doubleDash then .ok ⟨[], rest⟩
    else if isOption arg then do
      let options ← argumentOptions spellings arg
      match options.pending with
      | none => do
        let arguments ← readArguments spellings interspersed rest
        return ⟨options.given ++ arguments.given, arguments.rest⟩
      | some s =>
        match rest with
        | [] => .error (.needsArgument s.name)
        | value :: rest => do
          let arguments ← readArguments spellings interspersed rest
          return ⟨options.given ++ (s.key, .value value) :: arguments.given, arguments.rest⟩
    else if interspersed then do
      let arguments ← readArguments spellings interspersed rest
      return ⟨arguments.given, arg :: arguments.rest⟩
    else .ok ⟨[], arg :: rest⟩

namespace Arguments

variable [DecidableEq κ]

/-- What an option was given last. -/
def last? (arguments : Arguments κ) (key : κ) : Option Given :=
  (arguments.given.reverse.find? fun given => given.1 = key).map Prod.snd

def value? (arguments : Arguments κ) (key : κ) : Option Text :=
  match arguments.last? key with
  | some (.value t) => some t
  | _ => none

def flag? (arguments : Arguments κ) (key : κ) : Option Bool :=
  match arguments.last? key with
  | some (.flag b) => some b
  | _ => none

/-- The options in the order in which they are checked: those given, as they first came, before the
others as they are declared. -/
def checked (arguments : Arguments κ) (declared : List κ) : List κ :=
  (arguments.given.map Prod.fst).eraseDups ++
    declared.filter fun key => key ∉ arguments.given.map Prod.fst

end Arguments

end SchemaPlugin.CommandLine
