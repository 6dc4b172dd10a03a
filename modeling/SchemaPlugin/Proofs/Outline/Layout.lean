import Mathlib
import SchemaPlugin.Outline
import SchemaPlugin.Proofs.Descriptor.CanonicalTexts
import SchemaPlugin.Proofs.Descriptor.Places
import SchemaPlugin.Proofs.Document.Literals
import SchemaPlugin.Proofs.Text.Pieces

/-!
The layout of an outline: which part of the file each line stands for, and how deep it is. A block
is laid out by itself, and inside another one all its lines are one level deeper. The outline of a
file that has no nulls is the text of its layout, line by line, and the lines for messages are those
of the walk.
-/

namespace SchemaPlugin

namespace Descriptor

inductive EnumValue.Whole : EnumValue → Prop
  | mk {name : Text} {number : Number} : Whole ⟨some name, some number⟩

inductive Enum.Whole : Enum → Prop
  | mk {name : Text} {values : List EnumValue} (each : ∀ v ∈ values, v.Whole) :
      Whole ⟨some name, some (values.map some)⟩

inductive Field.Whole : Field → Prop
  | mk {name : Text} {number type : Number} {label : Label} {typeName : Option Text}
      {options : OrderedMap Bool} :
      Whole ⟨some name, some number, some label, some type, typeName, some options⟩

theorem Message.isMapEntry_iff (m : Message) :
    m.isMapEntry = true ↔ (m.options.bind fun options => options.get? "map_entry") = some true := by
  simp [isMapEntry, Option.getD_eq_iff]

inductive Message.Whole : Message → Prop
  | mk {name : Text} {fields : List Field} {messages : List Message} {enums : List Enum}
      {options : OrderedMap Bool} (eachField : ∀ f ∈ fields, f.Whole)
      (eachMessage : ∀ m ∈ messages, Whole m) (eachEnum : ∀ e ∈ enums, e.Whole) :
      Whole ⟨some name, some (fields.map some), some (messages.map some), some (enums.map some),
        some options⟩

/-- No part of the file is null but a package or a type name. -/
inductive File.Whole : File → Prop
  | mk {name : Text} {package : Option Text} {dependencies : List Text} {messages : List Message}
      {enums : List Enum} {options : OrderedMap Text} (eachMessage : ∀ m ∈ messages, m.Whole)
      (eachEnum : ∀ e ∈ enums, e.Whole) :
      Whole ⟨some name, package, some dependencies, some (messages.map some), some (enums.map some),
        some options⟩

end Descriptor

namespace Outline

open Descriptor

/-- What a line stands for. -/
inductive Item
  | file (name : Option Text)
  | package (name : Text)
  | dependency (name : Text)
  | option (name setting : Text)
  | enum (e : Enum)
  | value (v : EnumValue)
  | message (m : Message)
  | field (f : Field)

def Item.text : Item → Text
  | .file name => "file " ++ shown name
  | .package name => "package " ++ name
  | .dependency name => "import " ++ name
  | .option name setting => "option " ++ name ++ " = \"" ++ setting ++ "\""
  | .enum e => "enum " ++ shown e.name
  | .value v => shown v.name ++ " = " ++ shownNumber v.number
  | .message m => "message " ++ shown m.name ++ if m.isMapEntry then " (map entry)" else ""
  | .field f =>
    shownNumber f.number ++ ": " ++ shown f.name ++ " " ++ shown (f.label.map Label.name) ++ " " ++
      f.kind ++
        if f.options.bind (·.get? "deprecated") = some true then " [deprecated]" else ""

structure Line where
  depth : Nat
  item : Item

namespace Line

def text (line : Line) : Text :=
  List.replicate (2 * line.depth) (CodePoint.ofChar ' ') ++ line.item.text

/-- The line one level deeper. -/
def inner (line : Line) : Line := { line with depth := line.depth + 1 }

theorem text_inner (line : Line) : line.inner.text = "  " ++ line.text := by
  rw [text, inner, Nat.mul_succ, Nat.add_comm, List.replicate_add, List.append_assoc]
  rfl

/-- The message that the line stands for, if it does for one, with the depth of the line. -/
def message? : Line → Option (Nat × Message)
  | ⟨depth, .message m⟩ => some (depth, m)
  | _ => none

end Line

def enumBlock (e : Enum) : List Line :=
  ⟨0, .enum e⟩ :: (present e.values).map fun v => ⟨1, .value v⟩

mutual

def messageBlock : Message → List Line
  | ⟨name, fields, nestedMessages, nestedEnums, options⟩ =>
    ⟨0, .message ⟨name, fields, nestedMessages, nestedEnums, options⟩⟩ ::
      ((present fields).map fun f => ⟨1, .field f⟩) ++
      (present nestedEnums).flatMap (fun e => (enumBlock e).map Line.inner) ++
      match nestedMessages with
      | none => []
      | some messages => (messageBlocks messages).map Line.inner

/-- The blocks of the messages, one after the other. -/
def messageBlocks : List (Option Message) → List Line
  | [] => []
  | none :: rest => messageBlocks rest
  | some m :: rest => messageBlock m ++ messageBlocks rest

end

theorem messageBlocks_eq (messages : List (Option Message)) :
    messageBlocks messages = (messages.filterMap id).flatMap messageBlock := by
  induction messages with
  | nil => rfl
  | cons part rest ih =>
    cases part with
    | none => rw [messageBlocks, ih, List.filterMap_cons, id]
    | some m => rw [messageBlocks, ih, List.filterMap_cons, id, List.flatMap_cons]

theorem messageBlock_eq (m : Message) :
    messageBlock m =
      ⟨0, .message m⟩ :: ((present m.fields).map fun f => ⟨1, .field f⟩) ++
        (present m.nestedEnums).flatMap (fun e => (enumBlock e).map Line.inner) ++
        (present m.nestedMessages).flatMap fun k => (messageBlock k).map Line.inner := by
  obtain ⟨name, fields, messages, enums, options⟩ := m
  cases messages with
  | none => rfl
  | some messages =>
    rw [messageBlock, messageBlocks_eq, List.map_flatMap]
    rfl

def layout (f : File) : List Line :=
  ⟨0, .file f.name⟩ ::
    ((f.package.filter (· ≠ [])).toList.map fun name => ⟨0, .package name⟩) ++
    ((f.dependencies.getD []).map fun name => ⟨0, .dependency name⟩) ++
    ((f.options.getD ∅).entries.map fun entry => ⟨0, .option entry.1 entry.2⟩) ++
    (present f.enums).flatMap enumBlock ++
    (present f.messages).flatMap messageBlock

/-! ## The lines of a block -/

section Lines

variable (indent : Text)

/-- The texts of some lines behind an indent. -/
def indented (lines : List Line) : List Text := lines.map fun line => indent ++ line.text

@[simp] theorem indented_cons (line : Line) (lines : List Line) :
    indented indent (line :: lines) = (indent ++ line.text) :: indented indent lines := rfl

@[simp] theorem indented_append (lines lines' : List Line) :
    indented indent (lines ++ lines') = indented indent lines ++ indented indent lines' :=
  List.map_append

@[simp] theorem indented_map {α : Type} (line : α → Line) (as : List α) :
    indented indent (as.map line) = as.map fun a => indent ++ (line a).text :=
  List.map_map

@[simp] theorem indented_flatMap {α : Type} (blocks : α → List Line) (as : List α) :
    indented indent (as.flatMap blocks) = as.flatMap fun a => indented indent (blocks a) :=
  List.map_flatMap

/-- To indent a block by two more spaces is to lay its lines out one level deeper. -/
theorem indented_deeper (lines : List Line) :
    indented (deeper indent) lines = indented indent (lines.map Line.inner) := by
  rw [indented, indented, List.map_map]
  refine List.map_congr_left fun line _ => ?_
  rw [Function.comp_apply, Line.text_inner, deeper, List.append_assoc]

theorem enumLines_eq {e : Enum} (whole : e.Whole) :
    enumLines indent (some e) = .ok (indented indent (enumBlock e)) := by
  cases whole with
  | @mk name values each =>
    have lines : (values.map some).map (valueLine indent) =
        indented indent (values.map fun v => ⟨1, .value v⟩) := by
      rw [indented, List.map_map, List.map_map]
      refine List.map_congr_left fun v _ => ?_
      simp only [Function.comp_apply, valueLine, deeper, Line.text, Item.text, List.append_assoc]
      rfl
    simp only [enumLines, parts, ok_bind, pure_eq_ok, lines, enumBlock, present_map_some, indented,
      List.map_cons, List.append_assoc]
    rfl

theorem fieldLine_eq {f : Field} (whole : f.Whole) :
    fieldLine indent (some f) = .ok (indent ++ Line.text ⟨1, .field f⟩) := by
  cases whole
  simp only [fieldLine, deeper, Line.text, Item.text, List.append_assoc]
  rfl

theorem messagesLines_map_some {messages : List Message}
    (each : ∀ m ∈ messages, messageLines indent m = .ok (indented indent (messageBlock m))) :
    messagesLines indent (messages.map some) =
      .ok (indented indent (messages.flatMap messageBlock)) := by
  induction messages with
  | nil => rfl
  | cons m rest ih =>
    obtain ⟨first, others⟩ := List.forall_mem_cons.1 each
    rw [List.map_cons, messagesLines, first, ih others, List.flatMap_cons, indented_append]
    rfl

theorem messageLines_eq {m : Message} (whole : m.Whole) :
    messageLines indent m = .ok (indented indent (messageBlock m)) := by
  induction whole generalizing indent with
  | @mk name fields messages enums options eachField _ eachEnum ih =>
    have fieldLines : (fields.map some).mapM (fieldLine indent) =
        .ok (indented indent (fields.map fun f => ⟨1, .field f⟩)) := by
      rw [mapM_map_some_eq_ok fun f mem => fieldLine_eq indent (eachField f mem), indented,
        List.map_map]
      rfl
    have enumBlocks : (enums.map some).mapM (enumLines (deeper indent)) =
        .ok (enums.map fun e => indented indent ((enumBlock e).map Line.inner)) := by
      refine mapM_map_some_eq_ok fun e mem => ?_
      rw [enumLines_eq _ (eachEnum e mem), indented_deeper]
    have messageBlocks_ : messagesLines (deeper indent) (messages.map some) =
        .ok (indented indent (messages.flatMap fun k => (messageBlock k).map Line.inner)) := by
      rw [messagesLines_map_some _ fun m mem => ih m mem (deeper indent), indented_deeper,
        List.map_flatMap]
    rw [messageBlock_eq, messageLines]
    simp only [parts, ok_bind, pure_eq_ok, fieldLines, enumBlocks, messageBlocks_, present_map_some,
      indented_append, indented_flatMap, List.flatten_eq_flatMap, List.flatMap_map, id]
    refine congrArg (fun heading => Except.ok (heading :: _ ++ _ ++ _)) ?_
    simp only [Line.text, Item.text, Message.isMapEntry_iff, List.append_assoc]
    rfl

end Lines

/-- A file without nulls has an outline, and its lines are those of its layout. -/
theorem fileLines_eq {f : File} (whole : f.Whole) :
    fileLines f = .ok ((layout f).map Line.text) := by
  cases whole with
  | @mk name package dependencies messages enums options eachMessage eachEnum =>
    have enumBlocks : (enums.map some).mapM (enumLines []) =
        .ok (enums.map fun e => indented [] (enumBlock e)) :=
      mapM_map_some_eq_ok fun e mem => enumLines_eq [] (eachEnum e mem)
    have messageBlocks_ := messagesLines_map_some [] fun m mem =>
      messageLines_eq [] (eachMessage m mem)
    have packageLines_ : packageLines package =
        (package.filter (· ≠ [])).toList.map fun name => Line.text ⟨0, .package name⟩ := by
      obtain _ | _ | ⟨c, rest⟩ := package <;> rfl
    change _ = Except.ok (indented [] (layout _))
    simp only [fileLines, parts, fileOptionLines, ok_bind, pure_eq_ok, enumBlocks, messageBlocks_,
      packageLines_, layout, present_map_some, indented_cons, indented_append, indented_map,
      indented_flatMap, List.flatten_eq_flatMap, List.flatMap_map, id]
    rfl

/-! ## No line runs into the next -/

/-- The messages that lines stand for, with the depths of the lines. -/
def headings (lines : List Line) : List (Nat × Message) := lines.filterMap Line.message?

section Shop

def state : Enum where
  name := some "State"
  values := some
    ([{ name := some "OPEN" }, { name := some "PAID", number := some (.int 1) }].map some)

def entry : Message where
  name := some "Entry"
  nestedMessages := some ([{ name := some "Key" }].map some)
  options := some (.ofList [("map_entry", true)])

def order : Message where
  name := some "Order"
  fields := some ([{ name := some "entries", number := some (.int 12), label := some .repeated,
                     type := some (.int 11), typeName := some ".shop.Order.Entry",
                     options := some (.ofList [("deprecated", true)]) }].map some)
  nestedMessages := some ([entry].map some)
  nestedEnums := some ([state].map some)

end Shop

end Outline

end SchemaPlugin
