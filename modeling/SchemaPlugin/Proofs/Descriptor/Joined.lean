import SchemaPlugin.Proofs.Descriptor.NormalForm
import SchemaPlugin.Proofs.Text.Surrogates

/-!
The texts of a descriptor, names of options among them, and the descriptor with the surrogate pairs
of its texts joined. If no text has such a pair, it is the same descriptor.
-/

namespace SchemaPlugin

open Encoding (joinSurrogates)

namespace Descriptor

def partTexts {α : Type} (texts : α → List Text) (parts : Option (List (Option α))) : List Text :=
  (parts.getD []).flatMap fun part => (part.map texts).getD []

def optionNames {α : Type} (options : Option (OrderedMap α)) : List Text :=
  (options.map OrderedMap.keys).getD []

/-- The options with the pairs in their names joined. -/
def joinedNames (options : Option (OrderedMap Bool)) : Option (OrderedMap Bool) :=
  options.map (·.mapEntries joinSurrogates id)

theorem mapParts_eq_self {α : Type} {f : α → α} {texts : α → List Text} {P : Text → Prop}
    (fixed : ∀ a, (∀ t ∈ texts a, P t) → f a = a) {parts : Option (List (Option α))}
    (each : ∀ t ∈ partTexts texts parts, P t) : mapParts f parts = parts := by
  cases parts with
  | none => rfl
  | some parts =>
    refine congrArg some ((List.map_congr_left fun part hp => ?_).trans (List.map_id _))
    cases part with
    | none => rfl
    | some a =>
      refine congrArg some (fixed a fun t ht => each t ?_)
      exact List.mem_flatMap.2 ⟨some a, hp, ht⟩

theorem joinedNames_eq_self {options : Option (OrderedMap Bool)}
    (each : ∀ t ∈ optionNames options, t.Unpaired) : joinedNames options = options := by
  cases options with
  | none => rfl
  | some options =>
    refine congrArg some (OrderedMap.mapEntries_eq_self fun entry he => ⟨?_, rfl⟩)
    exact (each entry.1 (List.mem_map_of_mem he)).joinSurrogates_eq

theorem map_joinSurrogates_eq_self {t : Option Text} (each : ∀ u ∈ t.toList, u.Unpaired) :
    t.map joinSurrogates = t := by
  cases t with
  | none => rfl
  | some t => exact congrArg some (each t List.mem_cons_self).joinSurrogates_eq

theorem mapList_joinSurrogates_eq_self {ts : Option (List Text)}
    (each : ∀ t ∈ ts.getD [], t.Unpaired) : ts.map (List.map joinSurrogates) = ts := by
  cases ts with
  | none => rfl
  | some ts =>
    refine congrArg some ((List.map_congr_left fun t ht => ?_).trans (List.map_id _))
    exact (each t ht).joinSurrogates_eq

namespace EnumValue

def texts (v : EnumValue) : List Text := v.name.toList

def joined (v : EnumValue) : EnumValue := { v with name := v.name.map joinSurrogates }

theorem joined_eq_self (v : EnumValue) (each : ∀ t ∈ v.texts, t.Unpaired) : v.joined = v := by
  rw [joined, map_joinSurrogates_eq_self each]

end EnumValue

namespace Enum

def texts (e : Enum) : List Text := e.name.toList ++ partTexts EnumValue.texts e.values

def joined (e : Enum) : Enum where
  name := e.name.map joinSurrogates
  values := mapParts EnumValue.joined e.values

theorem joined_eq_self (e : Enum) (each : ∀ t ∈ e.texts, t.Unpaired) : e.joined = e := by
  obtain ⟨name, values⟩ := List.forall_mem_append.1 each
  rw [joined, map_joinSurrogates_eq_self name, mapParts_eq_self EnumValue.joined_eq_self values]

end Enum

namespace Field

def texts (f : Field) : List Text :=
  f.name.toList ++ (f.typeName.toList ++ optionNames f.options)

def joined (f : Field) : Field :=
  { f with name := f.name.map joinSurrogates, typeName := f.typeName.map joinSurrogates,
           options := joinedNames f.options }

theorem joined_eq_self (f : Field) (each : ∀ t ∈ f.texts, t.Unpaired) : f.joined = f := by
  obtain ⟨name, each⟩ := List.forall_mem_append.1 each
  obtain ⟨typeName, options⟩ := List.forall_mem_append.1 each
  rw [joined, map_joinSurrogates_eq_self name, map_joinSurrogates_eq_self typeName,
    joinedNames_eq_self options]

end Field

namespace Message

mutual

def texts : Message → List Text
  | ⟨name, fields, none, enums, options⟩ =>
    name.toList ++ (partTexts Field.texts fields ++ (partTexts Enum.texts enums ++
      optionNames options))
  | ⟨name, fields, some messages, enums, options⟩ =>
    name.toList ++ (partTexts Field.texts fields ++ (partTexts Enum.texts enums ++
      (optionNames options ++ textsOf messages)))

def textsOf : List (Option Message) → List Text
  | [] => []
  | none :: rest => textsOf rest
  | some m :: rest => m.texts ++ textsOf rest

end

mutual

def joined : Message → Message
  | ⟨name, fields, none, enums, options⟩ =>
    ⟨name.map joinSurrogates, mapParts .joined fields, none, mapParts .joined enums,
      joinedNames options⟩
  | ⟨name, fields, some messages, enums, options⟩ =>
    ⟨name.map joinSurrogates, mapParts .joined fields, some (joinedAll messages),
      mapParts .joined enums, joinedNames options⟩

def joinedAll : List (Option Message) → List (Option Message)
  | [] => []
  | none :: rest => none :: joinedAll rest
  | some m :: rest => some m.joined :: joinedAll rest

end

mutual

theorem joined_eq_self : ∀ m : Message, (∀ t ∈ m.texts, t.Unpaired) → m.joined = m
  | ⟨name, fields, none, enums, options⟩, each => by
    rw [texts] at each
    simp only [List.forall_mem_append] at each
    rw [joined, map_joinSurrogates_eq_self each.1, mapParts_eq_self Field.joined_eq_self each.2.1,
      mapParts_eq_self Enum.joined_eq_self each.2.2.1, joinedNames_eq_self each.2.2.2]
  | ⟨name, fields, some messages, enums, options⟩, each => by
    rw [texts] at each
    simp only [List.forall_mem_append] at each
    rw [joined, map_joinSurrogates_eq_self each.1, mapParts_eq_self Field.joined_eq_self each.2.1,
      mapParts_eq_self Enum.joined_eq_self each.2.2.1, joinedNames_eq_self each.2.2.2.1,
      joinedAll_eq_self messages each.2.2.2.2]

theorem joinedAll_eq_self :
    ∀ messages : List (Option Message), (∀ t ∈ textsOf messages, t.Unpaired) →
      joinedAll messages = messages
  | [], _ => rfl
  | none :: rest, each => by
    rw [joinedAll, joinedAll_eq_self rest each]
  | some m :: rest, each => by
    rw [textsOf] at each
    obtain ⟨first, others⟩ := List.forall_mem_append.1 each
    rw [joinedAll, joined_eq_self m first, joinedAll_eq_self rest others]

end

end Message

namespace File

def texts (f : File) : List Text :=
  f.name.toList ++ (f.package.toList ++ (f.dependencies.getD [] ++
    (partTexts Message.texts f.messages ++ (partTexts Enum.texts f.enums ++
      (optionNames f.options ++ (f.options.map OrderedMap.values).getD [])))))

def joined (f : File) : File where
  name := f.name.map joinSurrogates
  package := f.package.map joinSurrogates
  dependencies := f.dependencies.map (List.map joinSurrogates)
  messages := mapParts Message.joined f.messages
  enums := mapParts Enum.joined f.enums
  options := f.options.map (·.mapEntries joinSurrogates joinSurrogates)

theorem joined_eq_self (f : File) (each : ∀ t ∈ f.texts, t.Unpaired) : f.joined = f := by
  rw [texts] at each
  simp only [List.forall_mem_append] at each
  obtain ⟨name, package, dependencies, messages, enums, names, values⟩ := each
  have options : f.options.map (·.mapEntries joinSurrogates joinSurrogates) = f.options := by
    cases eq : f.options with
    | none => rfl
    | some options =>
      rw [eq] at names values
      refine congrArg some (OrderedMap.mapEntries_eq_self fun entry he => ⟨?_, ?_⟩)
      · exact (names entry.1 (List.mem_map_of_mem he)).joinSurrogates_eq
      · exact (values entry.2 (List.mem_map_of_mem he)).joinSurrogates_eq
  rw [joined, map_joinSurrogates_eq_self name, map_joinSurrogates_eq_self package,
    mapList_joinSurrogates_eq_self dependencies, mapParts_eq_self Message.joined_eq_self messages,
    mapParts_eq_self Enum.joined_eq_self enums, options]

end File

end Descriptor

namespace Request

/-- The texts of a request, the names that its files are filed under among them. -/
def texts (r : Request) : List Text :=
  r.filesToGenerate.getD [] ++ (r.parameter.toList ++
    (r.protoFiles.keys ++ r.protoFiles.values.flatMap Descriptor.File.texts))

/-- The request with the surrogate pairs in its texts joined. -/
def joined (r : Request) : Request where
  filesToGenerate := r.filesToGenerate.map (List.map joinSurrogates)
  parameter := r.parameter.map joinSurrogates
  protoFiles := r.protoFiles.mapEntries joinSurrogates Descriptor.File.joined

theorem joined_eq_self {r : Request} (each : ∀ t ∈ r.texts, t.Unpaired) : r.joined = r := by
  rw [texts] at each
  simp only [List.forall_mem_append] at each
  obtain ⟨names, parameter, keys, files⟩ := each
  have same : r.protoFiles.mapEntries joinSurrogates Descriptor.File.joined = r.protoFiles := by
    refine OrderedMap.mapEntries_eq_self fun entry he => ⟨?_, ?_⟩
    · exact (keys entry.1 (List.mem_map_of_mem he)).joinSurrogates_eq
    · refine entry.2.joined_eq_self fun t ht => files t ?_
      exact List.mem_flatMap.2 ⟨entry.2, List.mem_map_of_mem he, ht⟩
  rw [joined, Descriptor.mapList_joinSurrogates_eq_self names,
    Descriptor.map_joinSurrogates_eq_self parameter, same]

end Request

end SchemaPlugin
