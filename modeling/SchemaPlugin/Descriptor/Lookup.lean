import SchemaPlugin.Descriptor

/-!
Messages and enums by qualified name: the names of the enclosing messages and their own, with dots
between them. Of several with one name, the first in the order of the walk is found.
-/

namespace SchemaPlugin.Descriptor

def dot : CodePoint := '.'

/-- A name inside a message; an empty name does not qualify. -/
def qualify (outer name : Text) : Text := if outer = [] then name else outer ++ dot :: name

mutual

/-- A message and all messages nested in it, each after the one it is in, with qualified names. -/
def Message.walk (outer : Text) : Message → List (Text × Message)
  | ⟨name, fields, nestedMessages, nestedEnums, options⟩ =>
    let qualified := qualify outer (name.getD [])
    (qualified, ⟨name, fields, nestedMessages, nestedEnums, options⟩) ::
      match nestedMessages with
      | none => []
      | some messages => Message.walkAll qualified messages

def Message.walkAll (outer : Text) : List (Option Message) → List (Text × Message)
  | [] => []
  | none :: rest => walkAll outer rest
  | some m :: rest => m.walk outer ++ walkAll outer rest

end

/-- The enum of a name in a list. -/
def enumNamed? (enums : Option (List (Option Enum))) (name : Text) : Option Enum :=
  ((enums.getD []).filterMap id).find? fun e => e.name = some name

namespace File

def walk (f : File) : List (Text × Message) := Message.walkAll [] (f.messages.getD [])

def findMessage? (f : File) (qualified : Text) : Option Message :=
  (f.walk.find? fun entry => entry.1 = qualified).map Prod.snd

/-- What precedes the last dot names the enclosing message; an empty name means the file. -/
def findEnum? (f : File) (qualified : Text) : Option Enum :=
  match Text.cut? dot qualified.reverse with
  | none => enumNamed? f.enums qualified
  | some (name, outer) =>
    if outer = [] then enumNamed? f.enums name.reverse
    else (f.findMessage? outer.reverse).bind fun m => enumNamed? m.nestedEnums name.reverse

end File

/-- The names of the values of an enum. -/
def Enum.valueNames (e : Enum) : List Text :=
  (e.values.getD []).filterMap fun value => value.bind EnumValue.name

end SchemaPlugin.Descriptor
