import SchemaPlugin.Document.Display
import SchemaPlugin.Document.Integer

/-!
The shapes that documents are read in. A part is looked up under any of its names, the last member
that has one counting; a part that is missing has its default, and a null one stays null. A list is
read from whatever can be gone through: an array, the code points of a string, the keys of an
object.
-/

namespace SchemaPlugin

/-- Why a document does not have the shape that is read. -/
inductive ShapeError
  | notObject
  | unknownKeys (members : List (Text × Document))
  | notIterable (kind : Text)
  | notMap (kind : Text)
  | notPart (kind : Text)
  | notLabel (d : Document)
  | integer (e : IntegerError)
  | nullFiles
  | nullFile

def ShapeError.message : ShapeError → Text
  | .notObject => "JSON request must be an object"
  | .unknownKeys members =>
    "Unknown keys in JSON request: Received undefined initialization arguments " ++
      (Document.object members).shown
  | .notIterable kind => "'" ++ kind ++ "' object is not iterable"
  | .notMap kind => "'" ++ kind ++ "' object has no attribute 'keys'"
  | .notPart kind => "'" ++ kind ++ "' object has no attribute 'items'"
  | .notLabel d => d.shown ++ " is not a valid FieldLabel"
  | .integer e => e.message
  | .nullFiles => "'NoneType' object has no attribute 'items'"
  | .nullFile => "'NoneType' object has no attribute 'name'"

abbrev Read := Except ShapeError

namespace Document

/-- The members of an object that has no names but those. -/
def membersOf (names : List (List Text)) : Document → Read (List (Text × Document))
  | object members =>
    match members.filter fun member => member.1 ∉ names.flatten with
    | [] => .ok members
    | unknown => .error (.unknownKeys unknown)
  | d => .error (.notPart d.kind)

/-- The last member under one of the names. -/
def member? (names : List Text) (members : List (Text × Document)) : Option Document :=
  (members.reverse.find? fun member => member.1 ∈ names).map Prod.snd

/-- Reads what is there and not null. -/
def orDefault {α : Type} (default : Option α) (read : Document → Read α) :
    Option Document → Read (Option α)
  | none => .ok default
  | some null => .ok none
  | some d => do return some (← read d)

/-- What a list is read from. -/
def toItems : Document → Read (List Document)
  | array items => .ok items
  | string t => .ok (t.map fun c => string [c])
  | object members => .ok (members.map fun member => string member.1)
  | d => .error (.notIterable d.kind)

def toText? (default : Option Text) (d : Option Document) : Read (Option Text) :=
  orDefault default (fun d => .ok d.toText) d

def toTexts? : Option Document → Read (Option (List Text)) :=
  orDefault (some []) fun d => do return (← d.toItems).map toText

/-- Parts of a list, of which a null one stays null. -/
def toParts {α : Type} (read : Document → Read α) : List Document → Read (List (Option α))
  | [] => .ok []
  | null :: rest => do return none :: (← toParts read rest)
  | d :: rest => do
    let part ← read d
    return some part :: (← toParts read rest)

def toParts? {α : Type} (read : Document → Read α) :
    Option Document → Read (Option (List (Option α))) :=
  orDefault (some []) fun d => do toParts read (← d.toItems)

/-- The members of an object, as values of a map. -/
def toOptions? {α : Type} (value : Document → α) : Option Document → Read (Option (OrderedMap α)) :=
  orDefault (some ∅) fun
    | object members =>
      .ok (OrderedMap.ofList (members.map fun member => (member.1, value member.2)))
    | d => .error (.notMap d.kind)

end Document

end SchemaPlugin
