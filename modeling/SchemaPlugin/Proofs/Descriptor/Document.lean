import SchemaPlugin.Descriptor.OfDocument
import SchemaPlugin.Descriptor.ToDocument
import SchemaPlugin.Proofs.Descriptor.Joined
import SchemaPlugin.Proofs.Document.Joined

/-!
Descriptors from their own documents. The document of a descriptor, its surrogate pairs joined, is
read as the descriptor with its surrogate pairs joined; without pairs, as the descriptor itself.
-/

namespace SchemaPlugin

open Encoding (joinSurrogates)

namespace Document

variable {α β : Type}

theorem toText?_joined (default t : Option Text) :
    toText? default (some (ofText? t).joined) = .ok (t.map joinSurrogates) := by
  cases t <;> rfl

theorem toTexts?_joined (ts : Option (List Text)) :
    toTexts? (some (ofTexts? ts).joined) = .ok (ts.map (List.map joinSurrogates)) := by
  cases ts with
  | none => rfl
  | some ts =>
    have same : (joinedItems (ts.map string)).map toText = ts.map joinSurrogates := by
      rw [joinedItems_eq, List.map_map, List.map_map]
      rfl
    change Except.ok (some ((joinedItems (ts.map string)).map toText)) = _
    rw [same]
    rfl

/-- Parts whose documents are read are no null parts. -/
theorem toParts_joined {read : Document → Read α} {f : β → Document} {g : β → α}
    (trips : ∀ b, (f b).joined ≠ null ∧ read (f b).joined = .ok (g b)) (parts : List (Option β)) :
    toParts read (joinedItems (parts.map fun part => (part.map f).getD null)) =
      .ok (parts.map (Option.map g)) := by
  induction parts with
  | nil => rfl
  | cons part rest ih =>
    cases part with
    | none =>
      rw [List.map_cons, joinedItems, Option.map_none, Option.getD_none, joined, toParts, ih]
      rfl
    | some b =>
      obtain ⟨present, read⟩ := trips b
      rw [List.map_cons, joinedItems, Option.map_some, Option.getD_some, toParts, read, ih]
      · rfl
      · exact present

theorem toParts?_joined {read : Document → Read α} {f : β → Document} {g : β → α}
    (trips : ∀ b, (f b).joined ≠ null ∧ read (f b).joined = .ok (g b))
    (parts : Option (List (Option β))) :
    toParts? read (some (ofParts? f parts).joined) = .ok (Descriptor.mapParts g parts) := by
  cases parts with
  | none => rfl
  | some parts =>
    have eq := toParts_joined trips parts
    change (do
      let parts ← toParts read
        (joinedItems (parts.map fun (part : Option β) => (part.map f).getD null))
      return some parts) = _
    rw [eq]
    rfl

theorem joined_ofOptions? (f : β → Document) (options : OrderedMap β) :
    (ofOptions? f (some options)).joined =
      object (options.mapEntries joinSurrogates fun b => (f b).joined).entries := by
  rw [ofOptions?, joined, joinedMembers_eq, List.map_map]
  rfl

theorem toOptions?_joined {value : Document → α} {f : β → Document} {g : β → α}
    (trips : ∀ b, value (f b).joined = g b) (options : Option (OrderedMap β)) :
    toOptions? value (some (ofOptions? f options).joined) =
      .ok (options.map (·.mapEntries joinSurrogates g)) := by
  cases options with
  | none => rfl
  | some options =>
    have members := options.entries_mapEntries_comp joinSurrogates (fun b => (f b).joined) value
    simp only [trips] at members
    rw [joined_ofOptions?, toOptions?, orDefault]
    · simp only [← members, OrderedMap.ofList_entries]
      rfl
    · exact nofun

theorem integral_ofText? (t : Option Text) : Integral (ofText? t) := by
  cases t with
  | none => exact .null
  | some t => exact .string t

theorem integral_ofTexts? (ts : Option (List Text)) : Integral (ofTexts? ts) := by
  cases ts with
  | none => exact .null
  | some ts =>
    refine .array fun d hd => ?_
    obtain ⟨t, -, rfl⟩ := List.mem_map.1 hd
    exact .string t

theorem integral_ofParts? {f : β → Document} (each : ∀ b, Integral (f b))
    (parts : Option (List (Option β))) : Integral (ofParts? f parts) := by
  cases parts with
  | none => exact .null
  | some parts =>
    refine .array fun d hd => ?_
    obtain ⟨part, -, rfl⟩ := List.mem_map.1 hd
    cases part with
    | none => exact .null
    | some b => exact each b

theorem integral_ofOptions? {f : β → Document} (each : ∀ b, Integral (f b))
    (options : Option (OrderedMap β)) : Integral (ofOptions? f options) := by
  cases options with
  | none => exact .null
  | some options =>
    refine .object fun m hm => ?_
    obtain ⟨entry, -, rfl⟩ := List.mem_map.1 hm
    exact each entry.2

end Document

namespace Descriptor

open Document

theorem integral_numberDocument (n : Option Number) : Integral (numberDocument n) := by
  match n with
  | none => exact .null
  | some (.int n) => exact .int n
  | some (.flag b) => exact .bool b

theorem toNumber?_joined (n : Option Number) :
    toNumber? (some (numberDocument n).joined) = .ok n := by
  match n with
  | none => rfl
  | some (.int n) => rfl
  | some (.flag b) => rfl

theorem toLabel_joined (label : Option Label) :
    orDefault (some .optional) Label.ofDocument
      (some (numberDocument (label.map fun label => .int label.number)).joined) = .ok label := by
  match label with
  | none => rfl
  | some .optional => rfl
  | some .required => rfl
  | some .repeated => rfl

theorem toFlags_joined (options : Option (OrderedMap Bool)) :
    toOptions? truth (some (ofOptions? Document.bool options).joined) =
      .ok (joinedNames options) :=
  toOptions?_joined (fun _ => rfl) options

theorem EnumValue.integral_toDocument (v : EnumValue) : Integral v.toDocument :=
  .object (by simp [integral_ofText?, integral_numberDocument])

theorem Enum.integral_toDocument (e : Enum) : Integral e.toDocument :=
  .object (by simp [integral_ofText?, integral_ofParts? EnumValue.integral_toDocument])

theorem Field.integral_toDocument (f : Field) : Integral f.toDocument :=
  .object (by simp [integral_ofText?, integral_numberDocument, integral_ofOptions? Integral.bool])

theorem EnumValue.ofDocument_toDocument (v : EnumValue) :
    v.toDocument.joined ≠ null ∧ ofDocument v.toDocument.joined = .ok v.joined := by
  refine ⟨nofun, ?_⟩
  change (do
    let name ← toText? (some []) (some (ofText? v.name).joined)
    let number ← toNumber? (some (numberDocument v.number).joined)
    return ({ name, number } : EnumValue)) = _
  rw [toText?_joined, ok_bind, toNumber?_joined]
  rfl

theorem Enum.ofDocument_toDocument (e : Enum) :
    e.toDocument.joined ≠ null ∧ ofDocument e.toDocument.joined = .ok e.joined := by
  refine ⟨nofun, ?_⟩
  change (do
    let name ← toText? (some []) (some (ofText? e.name).joined)
    let values ← toParts? EnumValue.ofDocument
      (some (ofParts? EnumValue.toDocument e.values).joined)
    return ({ name, values } : Enum)) = _
  rw [toText?_joined, ok_bind, toParts?_joined EnumValue.ofDocument_toDocument]
  rfl

theorem Field.ofDocument_toDocument (f : Field) :
    f.toDocument.joined ≠ null ∧ ofDocument f.toDocument.joined = .ok f.joined := by
  refine ⟨nofun, ?_⟩
  change (do
    let name ← toText? (some []) (some (ofText? f.name).joined)
    let number ← toNumber? (some (numberDocument f.number).joined)
    let label ← orDefault (some Label.optional) Label.ofDocument
      (some (numberDocument (f.label.map fun (label : Label) => .int label.number)).joined)
    let type ← toNumber? (some (numberDocument f.type).joined)
    let typeName ← toText? none (some (ofText? f.typeName).joined)
    let options ← toOptions? truth (some (ofOptions? Document.bool f.options).joined)
    return ({ name, number, label, type, typeName, options } : Field)) = _
  rw [toText?_joined, ok_bind, toNumber?_joined, ok_bind, toLabel_joined, ok_bind,
    toNumber?_joined, ok_bind, toText?_joined, ok_bind, toFlags_joined]
  rfl

namespace Message

/-- The document of messages nested in a message. -/
def nestedDocument (messages : Option (List (Option Message))) : Document :=
  match messages with
  | none => null
  | some messages => array (toDocuments messages)

theorem toDocument_eq (m : Message) :
    m.toDocument = object [
      ("name", ofText? m.name),
      ("fields", ofParts? Field.toDocument m.fields),
      ("nestedMessages", nestedDocument m.nestedMessages),
      ("nestedEnums", ofParts? Enum.toDocument m.nestedEnums),
      ("options", ofOptions? Document.bool m.options)] := by
  obtain ⟨name, fields, messages, enums, options⟩ := m
  cases messages <;> rw [toDocument] <;> rfl

theorem joined_toDocument (m : Message) :
    m.toDocument.joined = object [
      ("name", (ofText? m.name).joined),
      ("fields", (ofParts? Field.toDocument m.fields).joined),
      ("nestedMessages", (nestedDocument m.nestedMessages).joined),
      ("nestedEnums", (ofParts? Enum.toDocument m.nestedEnums).joined),
      ("options", (ofOptions? Document.bool m.options).joined)] := by
  rw [toDocument_eq]
  rfl

theorem integral_toDocument (m : Message) : Integral m.toDocument := by
  induction m using Message.induct with
  | step m ih =>
    obtain ⟨name, fields, messages, enums, options⟩ := m
    have nested : Integral (nestedDocument messages) := by
      cases messages with
      | none => exact .null
      | some messages =>
        rw [nestedDocument, toDocuments_eq]
        refine .array fun d hd => ?_
        obtain ⟨part, hp, rfl⟩ := List.mem_map.1 hd
        cases part with
        | none => exact .null
        | some m => exact ih messages rfl m hp
    rw [toDocument_eq]
    exact .object (by simp [integral_ofText?, integral_ofParts? Field.integral_toDocument,
      integral_ofParts? Enum.integral_toDocument, integral_ofOptions? Integral.bool, nested])

theorem listOf_joined {messages : List (Option Message)}
    (each : ∀ m, some m ∈ messages → ofDocument m.toDocument.joined = .ok m.joined) :
    listOf (joinedItems (toDocuments messages)) = .ok (joinedAll messages) := by
  induction messages with
  | nil => rw [toDocuments, joinedItems, listOf, joinedAll]
  | cons part rest ih =>
    have others := ih fun m hm => each m (List.mem_cons_of_mem part hm)
    cases part with
    | none =>
      rw [toDocuments, joinedItems, Document.joined, listOf, others]
      rfl
    | some m =>
      have first := each m List.mem_cons_self
      have present : m.toDocument.joined ≠ null := by
        rw [joined_toDocument]
        rintro ⟨⟩
      rw [toDocuments, joinedItems, listOf, first, others]
      · rfl
      · exact present

theorem nestedOf_joined {messages : Option (List (Option Message))}
    (each : ∀ ms, messages = some ms → ∀ m, some m ∈ ms →
      ofDocument m.toDocument.joined = .ok m.joined) (a b c d : Document) :
    nestedOf (.ok (some [])) [("name", a), ("fields", b),
        ("nestedMessages", (nestedDocument messages).joined), ("nestedEnums", c), ("options", d)] =
      .ok (messages.map joinedAll) := by
  have name : ¬("name" : Text) ∈ nestedMessagesNames := by decide
  have fields : ¬("fields" : Text) ∈ nestedMessagesNames := by decide
  have nested : ("nestedMessages" : Text) ∈ nestedMessagesNames := by decide
  have enums : ¬("nestedEnums" : Text) ∈ nestedMessagesNames := by decide
  have options : ¬("options" : Text) ∈ nestedMessagesNames := by decide
  cases messages with
  | none =>
    simp only [nestedOf, if_neg name, if_neg fields, if_pos nested, if_neg enums, if_neg options,
      nestedDocument, Document.joined]
    rfl
  | some messages =>
    have read := listOf_joined (each messages rfl)
    simp only [nestedOf, if_neg name, if_neg fields, if_pos nested, if_neg enums, if_neg options,
      nestedDocument, Document.joined, read]
    rfl

theorem joined_eq (m : Message) :
    m.joined = ⟨m.name.map joinSurrogates, mapParts Field.joined m.fields,
      m.nestedMessages.map joinedAll, mapParts Enum.joined m.nestedEnums,
      joinedNames m.options⟩ := by
  obtain ⟨name, fields, messages, enums, options⟩ := m
  cases messages <;> rw [joined] <;> rfl

theorem ofDocument_toDocument (m : Message) :
    m.toDocument.joined ≠ null ∧ ofDocument m.toDocument.joined = .ok m.joined := by
  induction m using Message.induct with
  | step m ih =>
    have nested (a b c d : Document) := nestedOf_joined (fun ms eq k hk => (ih ms eq k hk).2) a b c d
    rw [joined_toDocument]
    refine ⟨nofun, ?_⟩
    rw [ofDocument]
    change (do
      let name ← toText? (some []) (some (ofText? m.name).joined)
      let fields ← toParts? Field.ofDocument (some (ofParts? Field.toDocument m.fields).joined)
      let nestedMessages ← nestedOf (.ok (some [])) _
      let nestedEnums ← toParts? Enum.ofDocument
        (some (ofParts? Enum.toDocument m.nestedEnums).joined)
      let options ← toOptions? truth (some (ofOptions? Document.bool m.options).joined)
      return ({ name, fields, nestedMessages, nestedEnums, options } : Message)) = _
    rw [toText?_joined, ok_bind, toParts?_joined Field.ofDocument_toDocument, ok_bind, nested,
      ok_bind, toParts?_joined Enum.ofDocument_toDocument, ok_bind, toFlags_joined, joined_eq]
    rfl

end Message

theorem File.integral_toDocument (f : File) : Integral f.toDocument :=
  .object (by simp [integral_ofText?, integral_ofTexts?,
    integral_ofParts? Message.integral_toDocument, integral_ofParts? Enum.integral_toDocument,
    integral_ofOptions? Integral.string])

theorem File.ofDocument_toDocument (f : File) :
    f.toDocument.joined ≠ null ∧ ofDocument f.toDocument.joined = .ok f.joined := by
  have options : toOptions? toText (some (ofOptions? Document.string f.options).joined) =
      .ok (f.options.map (·.mapEntries joinSurrogates joinSurrogates)) :=
    toOptions?_joined (fun _ => rfl) f.options
  refine ⟨nofun, ?_⟩
  change (do
    let name ← toText? (some []) (some (ofText? f.name).joined)
    let package ← toText? none (some (ofText? f.package).joined)
    let dependencies ← toTexts? (some (ofTexts? f.dependencies).joined)
    let messages ← toParts? Message.ofDocument
      (some (ofParts? Message.toDocument f.messages).joined)
    let enums ← toParts? Enum.ofDocument (some (ofParts? Enum.toDocument f.enums).joined)
    let options ← toOptions? Document.toText (some (ofOptions? Document.string f.options).joined)
    return ({ name, package, dependencies, messages, enums, options } : File)) = _
  rw [toText?_joined, ok_bind, toText?_joined, ok_bind, toTexts?_joined, ok_bind,
    toParts?_joined Message.ofDocument_toDocument, ok_bind,
    toParts?_joined Enum.ofDocument_toDocument, ok_bind, options]
  rfl

end Descriptor

end SchemaPlugin
