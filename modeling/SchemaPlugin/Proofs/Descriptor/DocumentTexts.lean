import SchemaPlugin.Proofs.Descriptor.CanonicalTexts
import SchemaPlugin.Proofs.Descriptor.NestedMessages
import SchemaPlugin.Proofs.Document.Display
import SchemaPlugin.Proofs.Document.Unpaired
import SchemaPlugin.Request.Document

/-!
The texts of what is read from a document without surrogate pairs. A text comes from one string or
name of it, is a single code point, or shows a part of the document; none of these has a pair.
-/

namespace SchemaPlugin

namespace Document

open Descriptor (partTexts optionNames)

variable {α : Type} {d : Document} {o : Option Document} {ms : List (Text × Document)}

theorem Unpaired.toText (h : d.Unpaired) : d.toText.Unpaired := by
  cases h with
  | string unpaired => exact unpaired
  | _ => exact (encodable_shown _).unpaired

theorem Unpaired.toItems {items : List Document} (h : d.Unpaired) (read : d.toItems = .ok items) :
    ∀ item ∈ items, item.Unpaired := by
  cases h with
  | array each =>
    cases read
    exact each
  | string _ =>
    cases read
    exact List.forall_mem_map.2 fun c _ => .string (.singleton c)
  | object names _ =>
    cases read
    exact List.forall_mem_map.2 fun m hm => .string (names m hm)
  | _ => cases read

theorem Unpaired.member? {names : List Text} (h : (Document.object ms).Unpaired) :
    ∀ d, Document.member? names ms = some d → d.Unpaired := by
  intro d found
  obtain ⟨m, first, rfl⟩ := Option.map_eq_some_iff.1 found
  cases h with
  | object _ each => exact each m (List.mem_reverse.1 (List.mem_of_find?_eq_some first))

/-- A part that is read is missing, null, or read from what is there. -/
theorem orDefault_cases {default a : Option α} {read : Document → Read α}
    (h : orDefault default read o = .ok a) :
    a = default ∨ a = none ∨ ∃ d b, o = some d ∧ read d = .ok b ∧ a = some b := by
  unfold orDefault at h
  split at h
  · cases h
    exact .inl rfl
  · cases h
    exact .inr (.inl rfl)
  · obtain ⟨b, read, eq⟩ := bind_eq_ok_iff.1 h
    cases eq
    exact .inr (.inr ⟨_, b, rfl, read, rfl⟩)

section Parts

variable (unpaired : ∀ d, o = some d → d.Unpaired)
include unpaired

theorem unpaired_of_toText? {default t : Option Text} (given : ∀ u ∈ default.toList, u.Unpaired)
    (h : toText? default o = .ok t) : ∀ u ∈ t.toList, u.Unpaired := by
  rcases orDefault_cases h with rfl | rfl | ⟨d, u, some_, read, rfl⟩
  · exact given
  · exact nofun
  · cases read
    exact List.forall_mem_singleton.2 (unpaired d some_).toText

theorem unpaired_of_toTexts? {ts : Option (List Text)} (h : toTexts? o = .ok ts) :
    ∀ t ∈ ts.getD [], t.Unpaired := by
  rcases orDefault_cases h with rfl | rfl | ⟨d, texts, some_, read, rfl⟩
  · exact nofun
  · exact nofun
  · obtain ⟨items, listed, eq⟩ := bind_eq_ok_iff.1 read
    cases eq
    have each := (unpaired d some_).toItems listed
    exact List.forall_mem_map.2 fun item hi => (each item hi).toText

theorem unpaired_of_toParts? {read : Document → Read α} {texts : α → List Text}
    (each : ∀ d items, o = some d → d.toItems = .ok items → ∀ item ∈ items, item.Unpaired →
      ∀ a, read item = .ok a → ∀ t ∈ texts a, t.Unpaired)
    {parts : Option (List (Option α))} (h : toParts? read o = .ok parts) :
    ∀ t ∈ partTexts texts parts, t.Unpaired := by
  rcases orDefault_cases h with rfl | rfl | ⟨d, parts, some_, read, rfl⟩
  · exact nofun
  · exact nofun
  · obtain ⟨items, listed, read⟩ := bind_eq_ok_iff.1 read
    refine Descriptor.forall_mem_partTexts.2 ?_
    rintro _ ⟨⟩
    refine forall_of_toParts (fun item mem => ?_) read
    exact each d items some_ listed item mem ((unpaired d some_).toItems listed item mem)

theorem unpaired_of_toOptions? {value : Document → α} {options : Option (OrderedMap α)}
    {P : α → Prop} (each : ∀ d, d.Unpaired → P (value d)) (h : toOptions? value o = .ok options) :
    (∀ t ∈ optionNames options, t.Unpaired) ∧
      ∀ a ∈ (options.map OrderedMap.values).getD [], P a := by
  rcases orDefault_cases h with rfl | rfl | ⟨d, options, some_, read, rfl⟩
  · exact ⟨nofun, nofun⟩
  · exact ⟨nofun, nofun⟩
  · cases unpaired d some_ with
    | @object members names parts =>
      cases read
      have listed : ∀ e ∈ members.map fun m => (m.1, value m.2), e.1.Unpaired ∧ P e.2 :=
        List.forall_mem_map.2 fun m hm => ⟨names m hm, each m.2 (parts m hm)⟩
      have entries := OrderedMap.forall_entries_ofList listed
      exact ⟨List.forall_mem_map.2 fun e he => (entries e he).1,
        List.forall_mem_map.2 fun e he => (entries e he).2⟩
    | _ => cases read

end Parts

end Document

namespace Descriptor

open Document (eq_object_of_membersOf unpaired_of_toText? unpaired_of_toTexts?
  unpaired_of_toParts? unpaired_of_toOptions?)

theorem unpaired_nil : ∀ t ∈ Option.toList (some ([] : Text)), Text.Unpaired t :=
  List.forall_mem_singleton.2 List.IsChain.nil

theorem unpaired_flags {o : Option Document} (unpaired : ∀ d, o = some d → d.Unpaired)
    {options : Option (OrderedMap Bool)} (h : Document.toOptions? Document.truth o = .ok options) :
    ∀ t ∈ optionNames options, t.Unpaired :=
  (unpaired_of_toOptions? unpaired (P := fun _ => True) (fun _ _ => trivial) h).1

theorem EnumValue.unpaired_of_ofDocument (d : Document) (v : EnumValue) (unpaired : d.Unpaired)
    (read : ofDocument d = .ok v) : ∀ t ∈ v.texts, t.Unpaired := by
  obtain ⟨members, object, h⟩ := bind_eq_ok_iff.1 read
  obtain rfl := eq_object_of_membersOf object
  obtain ⟨name, readName, h⟩ := bind_eq_ok_iff.1 h
  obtain ⟨number, -, eq⟩ := bind_eq_ok_iff.1 h
  cases eq
  exact unpaired_of_toText? unpaired.member? unpaired_nil readName

theorem Enum.unpaired_of_ofDocument (d : Document) (e : Enum) (unpaired : d.Unpaired)
    (read : ofDocument d = .ok e) : ∀ t ∈ e.texts, t.Unpaired := by
  obtain ⟨members, object, h⟩ := bind_eq_ok_iff.1 read
  obtain rfl := eq_object_of_membersOf object
  obtain ⟨name, readName, h⟩ := bind_eq_ok_iff.1 h
  obtain ⟨values, readValues, eq⟩ := bind_eq_ok_iff.1 h
  cases eq
  exact List.forall_mem_append.2 ⟨unpaired_of_toText? unpaired.member? unpaired_nil readName,
    unpaired_of_toParts? unpaired.member?
      (fun _ _ _ _ d _ plain v => EnumValue.unpaired_of_ofDocument d v plain) readValues⟩

theorem Field.unpaired_of_ofDocument (d : Document) (f : Field) (unpaired : d.Unpaired)
    (read : ofDocument d = .ok f) : ∀ t ∈ f.texts, t.Unpaired := by
  obtain ⟨members, object, h⟩ := bind_eq_ok_iff.1 read
  obtain rfl := eq_object_of_membersOf object
  obtain ⟨name, readName, h⟩ := bind_eq_ok_iff.1 h
  obtain ⟨number, -, h⟩ := bind_eq_ok_iff.1 h
  obtain ⟨label, -, h⟩ := bind_eq_ok_iff.1 h
  obtain ⟨type, -, h⟩ := bind_eq_ok_iff.1 h
  obtain ⟨typeName, readTypeName, h⟩ := bind_eq_ok_iff.1 h
  obtain ⟨options, readOptions, eq⟩ := bind_eq_ok_iff.1 h
  cases eq
  simp only [texts, List.forall_mem_append]
  exact ⟨unpaired_of_toText? unpaired.member? unpaired_nil readName,
    unpaired_of_toText? unpaired.member? (List.forall_mem_nil _) readTypeName,
    unpaired_flags unpaired.member? readOptions⟩

namespace Message

theorem unpaired_of_ofDocument (d : Document) (m : Message) (unpaired : d.Unpaired)
    (read : ofDocument d = .ok m) : ∀ t ∈ m.texts, t.Unpaired := by
  induction d using Document.induct_items generalizing m with
  | step d ih =>
    rw [ofDocument_eq] at read
    obtain ⟨members, object, rest⟩ := bind_eq_ok_iff.1 read
    obtain rfl := eq_object_of_membersOf object
    obtain ⟨name, readName, rest⟩ := bind_eq_ok_iff.1 rest
    obtain ⟨fields, readFields, rest⟩ := bind_eq_ok_iff.1 rest
    obtain ⟨messages, readMessages, rest⟩ := bind_eq_ok_iff.1 rest
    obtain ⟨enums, readEnums, rest⟩ := bind_eq_ok_iff.1 rest
    obtain ⟨options, readOptions, eq⟩ := bind_eq_ok_iff.1 rest
    cases eq
    have nested : ∀ t ∈ partTexts texts messages, t.Unpaired := by
      refine unpaired_of_toParts? unpaired.member?
        (fun list items found made item mem plain k readItem => ?_) readMessages
      obtain ⟨key, -, listed⟩ := Document.mem_of_member? found
      rcases Document.toItems_cases made with rfl | strings
      · exact ih members key items rfl listed item mem k plain readItem
      · obtain ⟨t, rfl⟩ := strings item mem
        cases readItem
    exact forall_mem_texts.2 ⟨unpaired_of_toText? unpaired.member? unpaired_nil readName,
      unpaired_of_toParts? unpaired.member?
        (fun _ _ _ _ d _ plain f => Field.unpaired_of_ofDocument d f plain) readFields,
      unpaired_of_toParts? unpaired.member?
        (fun _ _ _ _ d _ plain e => Enum.unpaired_of_ofDocument d e plain) readEnums,
      unpaired_flags unpaired.member? readOptions, forall_mem_partTexts.1 nested⟩

end Message

theorem File.unpaired_of_ofDocument (d : Document) (f : File) (unpaired : d.Unpaired)
    (read : ofDocument d = .ok f) : ∀ t ∈ f.texts, t.Unpaired := by
  obtain ⟨members, object, h⟩ := bind_eq_ok_iff.1 read
  obtain rfl := eq_object_of_membersOf object
  obtain ⟨name, readName, h⟩ := bind_eq_ok_iff.1 h
  obtain ⟨package, readPackage, h⟩ := bind_eq_ok_iff.1 h
  obtain ⟨dependencies, readDependencies, h⟩ := bind_eq_ok_iff.1 h
  obtain ⟨messages, readMessages, h⟩ := bind_eq_ok_iff.1 h
  obtain ⟨enums, readEnums, h⟩ := bind_eq_ok_iff.1 h
  obtain ⟨options, readOptions, eq⟩ := bind_eq_ok_iff.1 h
  cases eq
  have given := unpaired_of_toOptions? unpaired.member? (fun d => Document.Unpaired.toText) readOptions
  simp only [texts, List.forall_mem_append]
  exact ⟨unpaired_of_toText? unpaired.member? unpaired_nil readName,
    unpaired_of_toText? unpaired.member? (List.forall_mem_nil _) readPackage,
    unpaired_of_toTexts? unpaired.member? readDependencies,
    unpaired_of_toParts? unpaired.member?
      (fun _ _ _ _ d _ plain m => Message.unpaired_of_ofDocument d m plain) readMessages,
    unpaired_of_toParts? unpaired.member?
      (fun _ _ _ _ d _ plain e => Enum.unpaired_of_ofDocument d e plain) readEnums, given⟩

end Descriptor

namespace Request

open Document (unpaired_of_toText? unpaired_of_toTexts?)

/-- The name of a file, and the texts in it, have no pairs. -/
def UnpairedEntry (entry : Text × Descriptor.File) : Prop :=
  entry.1.Unpaired ∧ ∀ t ∈ entry.2.texts, t.Unpaired

theorem UnpairedEntry.named {name : Text} {file : Descriptor.File}
    (h : UnpairedEntry (name, file)) : UnpairedEntry (name, named name file) := by
  have others : ∀ t ∈ ({ file with name := some name } : Descriptor.File).texts, t.Unpaired :=
    List.forall_mem_append.2
      ⟨List.forall_mem_singleton.2 h.1, (List.forall_mem_append.1 h.2).2⟩
  unfold Request.named
  split
  · exact ⟨h.1, others⟩
  · exact ⟨h.1, others⟩
  · exact h

theorem unpaired_of_fileMembers {members : List (Text × Document)}
    (names : ∀ m ∈ members, m.1.Unpaired) (parts : ∀ m ∈ members, m.2.Unpaired)
    {files : List (Text × Option Descriptor.File)} (read : fileMembers members = .ok files) :
    ∀ entry ∈ files, ∀ file, entry.2 = some file → UnpairedEntry (entry.1, file) := by
  induction members generalizing files with
  | nil =>
    cases read
    exact nofun
  | cons member rest ih =>
    obtain ⟨firstName, otherNames⟩ := List.forall_mem_cons.1 names
    obtain ⟨first, others⟩ := List.forall_mem_cons.1 parts
    have tail {files : List (Text × Option Descriptor.File)} (read : fileMembers rest = .ok files) :=
      ih otherNames others read
    unfold fileMembers at read
    split at read
    · rename_i nothing
      cases nothing
    · rename_i same
      cases same
      obtain ⟨files, listed, eq⟩ := bind_eq_ok_iff.1 read
      cases eq
      exact List.forall_mem_cons.2 ⟨nofun, tail listed⟩
    · rename_i name d _ _ same
      cases same
      obtain ⟨file, readFirst, read⟩ := bind_eq_ok_iff.1 read
      obtain ⟨files, listed, eq⟩ := bind_eq_ok_iff.1 read
      cases eq
      refine List.forall_mem_cons.2 ⟨?_, tail listed⟩
      rintro _ ⟨⟩
      exact ⟨firstName, Descriptor.File.unpaired_of_ofDocument d file first readFirst⟩

theorem unpaired_of_filed {members : List (Text × Option Descriptor.File)}
    (each : ∀ entry ∈ members, ∀ file, entry.2 = some file → UnpairedEntry (entry.1, file))
    {files : List (Text × Descriptor.File)} (read : filed members = .ok files) :
    ∀ entry ∈ files, UnpairedEntry entry := by
  induction members generalizing files with
  | nil =>
    cases read
    exact nofun
  | cons member rest ih =>
    obtain ⟨first, others⟩ := List.forall_mem_cons.1 each
    obtain ⟨name, file⟩ := member
    cases file with
    | none => cases read
    | some file =>
      obtain ⟨files, listed, eq⟩ := bind_eq_ok_iff.1 read
      cases eq
      exact List.forall_mem_cons.2 ⟨(first file rfl).named, ih others listed⟩

theorem unpaired_of_protoFilesOf {o : Option Document} (unpaired : ∀ d, o = some d → d.Unpaired)
    {files : OrderedMap Descriptor.File} (read : protoFilesOf o = .ok files) :
    ∀ entry ∈ files.entries, UnpairedEntry entry := by
  unfold protoFilesOf at read
  split at read
  · cases read
    exact nofun
  · cases read
  · rename_i members
    obtain ⟨listed, readMembers, read⟩ := bind_eq_ok_iff.1 read
    obtain ⟨entries, filed, eq⟩ := bind_eq_ok_iff.1 read
    cases eq
    cases unpaired _ rfl with
    | object names parts =>
      have each := unpaired_of_fileMembers names parts readMembers
      exact OrderedMap.forall_entries_ofList (unpaired_of_filed each filed)
  · cases read

/-- No text of a request read from a document without pairs has one. -/
theorem unpaired_of_ofDocument {d : Document} {r : Request} (unpaired : d.Unpaired)
    (read : ofDocument d = .ok r) : ∀ t ∈ r.texts, t.Unpaired := by
  unfold ofDocument at read
  split at read
  · obtain ⟨_, -, read⟩ := bind_eq_ok_iff.1 read
    obtain ⟨filesToGenerate, readNames, read⟩ := bind_eq_ok_iff.1 read
    obtain ⟨parameter, readParameter, read⟩ := bind_eq_ok_iff.1 read
    obtain ⟨protoFiles, readFiles, eq⟩ := bind_eq_ok_iff.1 read
    cases eq
    have files := unpaired_of_protoFilesOf unpaired.member? readFiles
    simp only [texts, List.forall_mem_append]
    refine ⟨unpaired_of_toTexts? unpaired.member? readNames,
      unpaired_of_toText? unpaired.member? Descriptor.unpaired_nil readParameter,
      List.forall_mem_map.2 fun entry he => (files entry he).1, fun t ht => ?_⟩
    obtain ⟨f, hf, ht⟩ := List.mem_flatMap.1 ht
    obtain ⟨entry, he, rfl⟩ := List.mem_map.1 hf
    exact (files entry he).2 t ht
  · cases read

end Request

end SchemaPlugin
