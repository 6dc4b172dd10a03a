import SchemaPlugin.Double.Shortest
import SchemaPlugin.OrderedMap

/-!
Documents: the values that a JSON text stands for. An object keeps its members in order, no key
twice.
-/

namespace SchemaPlugin

inductive Document
  | null
  | bool (b : Bool)
  | int (n : Int)
  | double (x : Double)
  | string (t : Text)
  | array (items : List Document)
  | object (members : List (Text × Document))

namespace Document

/-- What a document is, as errors name it. -/
def kind : Document → Text
  | null => "NoneType"
  | bool _ => "bool"
  | int _ => "int"
  | double _ => "float"
  | string _ => "str"
  | array _ => "list"
  | object _ => "dict"

/-- Null, zero and whatever is empty count as false. -/
def truth : Document → Bool
  | null => false
  | bool b => b
  | int n => n ≠ 0
  | double x => !x.isZero
  | string t => t ≠ []
  | array items => !items.isEmpty
  | object members => !members.isEmpty

/-- The integer that a document is equal to, a truth value counting as 0 or 1. -/
def toInt? : Document → Option Int
  | bool b => some (if b then 1 else 0)
  | int n => some n
  | double x => x.toInt?
  | _ => none

end Document

end SchemaPlugin
