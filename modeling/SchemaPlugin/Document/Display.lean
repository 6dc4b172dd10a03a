import SchemaPlugin.Document
import SchemaPlugin.Text.Quoted

/-!
Documents as messages show them: texts in quotes, `None`, `True` and `False` for the constants.
-/

namespace SchemaPlugin.Document

mutual

def shown : Document → Text
  | null => "None"
  | bool b => if b then "True" else "False"
  | int n => Text.ofInt n
  | double x => x.text
  | string t => t.quoted
  | array items => "[" ++ Text.join ", " (shownItems items) ++ "]"
  | object members => "\x7b" ++ Text.join ", " (shownMembers members) ++ "\x7d"

def shownItems : List Document → List Text
  | [] => []
  | d :: rest => d.shown :: shownItems rest

def shownMembers : List (Text × Document) → List Text
  | [] => []
  | (key, d) :: rest => (key.quoted ++ ": " ++ d.shown) :: shownMembers rest

end

/-- The text that a document is read as where a text is wanted: a string is itself. -/
def toText : Document → Text
  | string t => t
  | d => d.shown

end SchemaPlugin.Document
