import SchemaPlugin.OrderedMap

/-!
The descriptors of a schema file: its messages, their fields, its enums. A document may give the
null value for any part of a descriptor, which is `none` here; descriptors read from bytes have no
null but an absent package or type name.
-/

namespace SchemaPlugin.Descriptor

/-- A number of a descriptor. A document may write a truth value, which stays one and counts as 0
or 1. -/
inductive Number
  | int (n : Int)
  | flag (b : Bool)
  deriving DecidableEq

namespace Number

def value : Number → Int
  | .int n => n
  | .flag b => if b then 1 else 0

def text : Number → Text
  | .int n => Text.ofInt n
  | .flag b => if b then "True" else "False"

end Number

/-- How often a field may occur. -/
inductive Label
  | optional
  | required
  | repeated
  deriving DecidableEq

namespace Label

def number : Label → Nat
  | .optional => 1
  | .required => 2
  | .repeated => 3

def ofNumber? (n : Int) : Option Label :=
  if n = 1 then some .optional
  else if n = 2 then some .required
  else if n = 3 then some .repeated
  else none

def name : Label → Text
  | .optional => "optional"
  | .required => "required"
  | .repeated => "repeated"

end Label

/-- The types that a field can have. -/
inductive FieldType
  | double
  | float
  | int64
  | uint64
  | int32
  | fixed64
  | fixed32
  | bool
  | string
  | group
  | message
  | bytes
  | uint32
  | enum
  | sfixed32
  | sfixed64
  | sint32
  | sint64
  deriving DecidableEq

namespace FieldType

/-- The types in the order of their codes, which begin at 1. -/
def all : List FieldType :=
  [.double, .float, .int64, .uint64, .int32, .fixed64, .fixed32, .bool, .string, .group, .message,
    .bytes, .uint32, .enum, .sfixed32, .sfixed64, .sint32, .sint64]

def ofCode? (code : Int) : Option FieldType := if code < 1 then none else all[(code - 1).toNat]?

def name : FieldType → Text
  | .double => "double"
  | .float => "float"
  | .int64 => "int64"
  | .uint64 => "uint64"
  | .int32 => "int32"
  | .fixed64 => "fixed64"
  | .fixed32 => "fixed32"
  | .bool => "bool"
  | .string => "string"
  | .group => "group"
  | .message => "message"
  | .bytes => "bytes"
  | .uint32 => "uint32"
  | .enum => "enum"
  | .sfixed32 => "sfixed32"
  | .sfixed64 => "sfixed64"
  | .sint32 => "sint32"
  | .sint64 => "sint64"

end FieldType

structure EnumValue where
  name : Option Text := some []
  number : Option Number := some (.int 0)

structure Enum where
  name : Option Text := some []
  values : Option (List (Option EnumValue)) := some []

/-- A field of a message. `type` is the code as it came; `typeName` names the message or enum. -/
structure Field where
  name : Option Text := some []
  number : Option Number := some (.int 0)
  label : Option Label := some .optional
  type : Option Number := some (.int 0)
  typeName : Option Text := none
  options : Option (OrderedMap Bool) := some ∅

namespace Field

/-- The type that the code stands for. -/
def fieldType? (f : Field) : Option FieldType :=
  f.type.bind fun code => FieldType.ofCode? code.value

def isRepeated (f : Field) : Bool := f.label = some .repeated

def isMessage (f : Field) : Bool :=
  f.fieldType? = some .message || f.fieldType? = some .group

def isEnum (f : Field) : Bool := f.fieldType? = some .enum

/-- What the field holds: the named type, else the type of its code, else the code itself. -/
def kind (f : Field) : Text :=
  match f.typeName with
  | some (c :: rest) => c :: rest
  | _ => match f.fieldType? with
    | some type => type.name
    | none => match f.type with
      | some code => code.text
      | none => "None"

end Field

structure Message where
  name : Option Text := some []
  fields : Option (List (Option Field)) := some []
  nestedMessages : Option (List (Option Message)) := some []
  nestedEnums : Option (List (Option Enum)) := some []
  options : Option (OrderedMap Bool) := some ∅

namespace Message

def fieldNamed? (m : Message) (name : Text) : Option Field :=
  ((m.fields.getD []).filterMap id).find? fun f => f.name = some name

/-- The entry message of a map field says so in its options. -/
def isMapEntry (m : Message) : Bool :=
  (m.options.bind fun options => options.get? "map_entry").getD false

/-- What holds of a message if it holds of the messages nested directly in it holds of all. -/
theorem induct {motive : Message → Prop}
    (step : ∀ m : Message,
      (∀ ms, m.nestedMessages = some ms → ∀ k, some k ∈ ms → motive k) → motive m)
    (m : Message) : motive m :=
  m.rec (motive_1 := motive)
    (motive_2 := fun o => ∀ ms, o = some ms → ∀ k, some k ∈ ms → motive k)
    (motive_3 := fun ms => ∀ k, some k ∈ ms → motive k)
    (motive_4 := fun o => ∀ k, o = some k → motive k)
    (fun _ _ _ _ _ ih => step _ ih)
    (fun _ h => nomatch h)
    (fun _ ih _ h k hk => ih k (Option.some.inj h ▸ hk))
    (fun _ hk => nomatch hk)
    (fun _ _ head tail k hk => (List.mem_cons.1 hk).elim (fun e => head k e.symm) (tail k))
    (fun _ h => nomatch h)
    (fun _ ih _ h => Option.some.inj h ▸ ih)

end Message

structure File where
  name : Option Text := some []
  package : Option Text := none
  dependencies : Option (List Text) := some []
  messages : Option (List (Option Message)) := some []
  enums : Option (List (Option Enum)) := some []
  options : Option (OrderedMap Text) := some ∅

/-- The options of a file that have a field number. -/
def fileOptions : List (Nat × Text) :=
  [(1, "php_namespace"), (8, "php_class_prefix"), (40, "php_metadata_namespace")]

/-- The options of a message that have a field number. -/
def messageOptions : List (Nat × Text) := [(3, "deprecated"), (7, "map_entry")]

/-- The options of a field that have a field number. -/
def fieldOptions : List (Nat × Text) := [(2, "packed"), (3, "deprecated")]

/-- The field number of an option. -/
def numberOf? (table : List (Nat × Text)) (name : Text) : Option Nat :=
  (table.find? fun entry => entry.2 = name).map Prod.fst

end SchemaPlugin.Descriptor
