import Mathlib.Data.List.Nodup
import SchemaPlugin.Proofs.MessageType.Basic
import SchemaPlugin.Proofs.OrderedMap

/-!
What a field changes. Every field number has a slot of the message to itself: a field leaves the
slots of the other numbers as they are, and what it leaves in its own slot depends on nothing but
what was there.
-/

namespace SchemaPlugin

namespace Descriptor

attribute [ext] EnumValue Enum Field Message File

structure EnumValue.SameAt (n : Nat) (v v' : EnumValue) : Prop where
  name : n = 1 → v.name = v'.name
  number : n = 2 → v.number = v'.number

structure Enum.SameAt (n : Nat) (e e' : Enum) : Prop where
  name : n = 1 → e.name = e'.name
  values : n = 2 → e.values = e'.values

structure Field.SameAt (n : Nat) (d d' : Field) : Prop where
  name : n = 1 → d.name = d'.name
  number : n = 3 → d.number = d'.number
  label : n = 4 → d.label = d'.label
  type : n = 5 → d.type = d'.type
  typeName : n = 6 → d.typeName = d'.typeName
  options : n = 8 → d.options = d'.options

structure Message.SameAt (n : Nat) (m m' : Message) : Prop where
  name : n = 1 → m.name = m'.name
  fields : n = 2 → m.fields = m'.fields
  nestedMessages : n = 3 → m.nestedMessages = m'.nestedMessages
  nestedEnums : n = 4 → m.nestedEnums = m'.nestedEnums
  options : n = 7 → m.options = m'.options

structure File.SameAt (n : Nat) (d d' : File) : Prop where
  name : n = 1 → d.name = d'.name
  package : n = 2 → d.package = d'.package
  dependencies : n = 3 → d.dependencies = d'.dependencies
  messages : n = 4 → d.messages = d'.messages
  enums : n = 5 → d.enums = d'.enums
  options : n = 7 → d.options = d'.options

/-- The slot of a number is the option that it has; all names that no number has go with every
slot. -/
def OptionsSameAt {α : Type} (table : List (Nat × Text)) (n : Nat) (a b : OrderedMap α) : Prop :=
  ∀ name, (∀ m, optionOf? table m = some name → m = n) → a.get? name = b.get? name

end Descriptor

attribute [ext] Request Response GeneratedFile

structure Request.SameAt (n : Nat) (r r' : Request) : Prop where
  filesToGenerate : n = 1 → r.filesToGenerate = r'.filesToGenerate
  parameter : n = 2 → r.parameter = r'.parameter
  protoFiles : n = 15 → r.protoFiles = r'.protoFiles

structure Response.SameAt (n : Nat) (r r' : Response) : Prop where
  error : n = 1 → r.error = r'.error
  files : n = 15 → r.files = r'.files

structure GeneratedFile.SameAt (n : Nat) (g g' : GeneratedFile) : Prop where
  name : n = 1 → g.name = g'.name
  content : n = 15 → g.content = g'.content

namespace MessageType

open Descriptor

/-- Two messages are the same in the slot of a field number. -/
def SameAt : (type : MessageType) → Nat → type.Content → type.Content → Prop
  | request => Request.SameAt
  | file => File.SameAt
  | message _ => Message.SameAt
  | field => Descriptor.Field.SameAt
  | enum => Enum.SameAt
  | enumValue => EnumValue.SameAt
  | textOptions table => OptionsSameAt table
  | flagOptions table => OptionsSameAt table
  | response => Response.SameAt
  | generatedFile => GeneratedFile.SameAt

variable {type : MessageType}

/-- What the outcomes of taking a field of that number have in common: every slot that was the same
before is the same after, and is as it was if the number is another. -/
def Local (type : MessageType) (number : Nat) (s s' t t' : type.Content) : Prop :=
  ∀ n, type.SameAt n s s' → type.SameAt n t t' ∧ (number ≠ n → type.SameAt n t s')

theorem local_self (type : MessageType) (number : Nat) (s s' : type.Content) :
    type.Local number s s' s s' :=
  fun _ same => ⟨same, fun _ => same⟩

theorem local_request {s t : Request} (s' : Request) {f : Wire.Field} (h : s.step f = .ok t) :
    ∃ t', s'.step f = .ok t' ∧ request.Local f.number s s' t t' := by
  obtain ⟨number, value, start⟩ := f
  simp only [Request.step] at h ⊢
  split at h
  · exact exists_bind_ok h fun part n same => ⟨
      { same with filesToGenerate := fun e => congrArg (append · _) (same.filesToGenerate e) },
      fun other => { same with filesToGenerate := fun e => absurd e.symm other }⟩
  · exact exists_bind_ok h fun _ n same => ⟨{ same with parameter := fun _ => rfl },
      fun other => { same with parameter := fun e => absurd e.symm other }⟩
  · refine exists_bind_ok h fun file n same => ?_
    split_ifs
    · exact ⟨same, fun _ => same⟩
    · have filed : n = 15 → (s.addFile file).protoFiles = (s'.addFile file).protoFiles :=
        fun e => congrArg (OrderedMap.insert · _ file) (same.protoFiles e)
      exact ⟨{ same with protoFiles := filed },
        fun other => { same with protoFiles := fun e => absurd e.symm other }⟩
  · cases h
    exact ⟨s', rfl, local_self request number s s'⟩

theorem local_file {s t : File} (s' : File) {f : Wire.Field} (h : s.step f = .ok t) :
    ∃ t', s'.step f = .ok t' ∧ file.Local f.number s s' t t' := by
  obtain ⟨number, value, start⟩ := f
  simp only [File.step] at h ⊢
  split at h
  · exact exists_bind_ok h fun _ n same => ⟨{ same with name := fun _ => rfl },
      fun other => { same with name := fun e => absurd e.symm other }⟩
  · exact exists_bind_ok h fun _ n same => ⟨{ same with package := fun _ => rfl },
      fun other => { same with package := fun e => absurd e.symm other }⟩
  · exact exists_bind_ok h fun part n same => ⟨
      { same with dependencies := fun e => congrArg (append · _) (same.dependencies e) },
      fun other => { same with dependencies := fun e => absurd e.symm other }⟩
  · exact exists_bind_ok h fun part n same => ⟨
      { same with messages := fun e => congrArg (append · _) (same.messages e) },
      fun other => { same with messages := fun e => absurd e.symm other }⟩
  · exact exists_bind_ok h fun part n same => ⟨
      { same with enums := fun e => congrArg (append · _) (same.enums e) },
      fun other => { same with enums := fun e => absurd e.symm other }⟩
  · exact exists_bind_ok h fun _ n same => ⟨{ same with options := fun _ => rfl },
      fun other => { same with options := fun e => absurd e.symm other }⟩
  · cases h
    exact ⟨s', rfl, local_self file number s s'⟩

theorem local_message (levels : Nat) {s t : Message} (s' : Message) {f : Wire.Field}
    (h : s.step (Message.decodeNested levels) f = .ok t) :
    ∃ t', s'.step (Message.decodeNested levels) f = .ok t' ∧
      (message levels).Local f.number s s' t t' := by
  obtain ⟨number, value, start⟩ := f
  simp only [Message.step] at h ⊢
  split at h
  · exact exists_bind_ok h fun _ n same => ⟨{ same with name := fun _ => rfl },
      fun other => { same with name := fun e => absurd e.symm other }⟩
  · exact exists_bind_ok h fun part n same => ⟨
      { same with fields := fun e => congrArg (append · _) (same.fields e) },
      fun other => { same with fields := fun e => absurd e.symm other }⟩
  · exact exists_bind_ok h fun part n same => ⟨
      { same with nestedMessages := fun e => congrArg (append · _) (same.nestedMessages e) },
      fun other => { same with nestedMessages := fun e => absurd e.symm other }⟩
  · exact exists_bind_ok h fun part n same => ⟨
      { same with nestedEnums := fun e => congrArg (append · _) (same.nestedEnums e) },
      fun other => { same with nestedEnums := fun e => absurd e.symm other }⟩
  · exact exists_bind_ok h fun _ n same => ⟨{ same with options := fun _ => rfl },
      fun other => { same with options := fun e => absurd e.symm other }⟩
  · cases h
    exact ⟨s', rfl, local_self (message levels) number s s'⟩

theorem local_field {s t : Descriptor.Field} (s' : Descriptor.Field) {f : Wire.Field}
    (h : s.step f = .ok t) :
    ∃ t', s'.step f = .ok t' ∧ field.Local f.number s s' t t' := by
  obtain ⟨number, value, start⟩ := f
  simp only [Descriptor.Field.step] at h ⊢
  split at h
  · exact exists_bind_ok h fun _ n same => ⟨{ same with name := fun _ => rfl },
      fun other => { same with name := fun e => absurd e.symm other }⟩
  · cases h
    exact ⟨_, rfl, fun n same => ⟨{ same with number := fun _ => rfl },
      fun other => { same with number := fun e => absurd e.symm other }⟩⟩
  · split at h
    · cases h
      exact ⟨_, rfl, fun n same => ⟨{ same with label := fun _ => rfl },
        fun other => { same with label := fun e => absurd e.symm other }⟩⟩
    · cases h
  · cases h
    exact ⟨_, rfl, fun n same => ⟨{ same with type := fun _ => rfl },
      fun other => { same with type := fun e => absurd e.symm other }⟩⟩
  · exact exists_bind_ok h fun _ n same => ⟨{ same with typeName := fun _ => rfl },
      fun other => { same with typeName := fun e => absurd e.symm other }⟩
  · exact exists_bind_ok h fun _ n same => ⟨{ same with options := fun _ => rfl },
      fun other => { same with options := fun e => absurd e.symm other }⟩
  · cases h
    exact ⟨s', rfl, local_self field number s s'⟩

theorem local_enum {s t : Enum} (s' : Enum) {f : Wire.Field} (h : s.step f = .ok t) :
    ∃ t', s'.step f = .ok t' ∧ enum.Local f.number s s' t t' := by
  obtain ⟨number, value, start⟩ := f
  simp only [Enum.step] at h ⊢
  split at h
  · exact exists_bind_ok h fun _ n same => ⟨{ same with name := fun _ => rfl },
      fun other => { same with name := fun e => absurd e.symm other }⟩
  · exact exists_bind_ok h fun part n same => ⟨
      { same with values := fun e => congrArg (append · _) (same.values e) },
      fun other => { same with values := fun e => absurd e.symm other }⟩
  · cases h
    exact ⟨s', rfl, local_self enum number s s'⟩

theorem local_enumValue {s t : EnumValue} (s' : EnumValue) {f : Wire.Field} (h : s.step f = .ok t) :
    ∃ t', s'.step f = .ok t' ∧ enumValue.Local f.number s s' t t' := by
  obtain ⟨number, value, start⟩ := f
  simp only [EnumValue.step] at h ⊢
  split at h
  · exact exists_bind_ok h fun _ n same => ⟨{ same with name := fun _ => rfl },
      fun other => { same with name := fun e => absurd e.symm other }⟩
  · cases h
    exact ⟨_, rfl, fun n same => ⟨{ same with number := fun _ => rfl },
      fun other => { same with number := fun e => absurd e.symm other }⟩⟩
  · cases h
    exact ⟨s', rfl, local_self enumValue number s s'⟩

theorem local_response {s t : Response} (s' : Response) {f : Wire.Field} (h : s.step f = .ok t) :
    ∃ t', s'.step f = .ok t' ∧ response.Local f.number s s' t t' := by
  obtain ⟨number, value, start⟩ := f
  simp only [Response.step] at h ⊢
  split at h
  · exact exists_bind_ok h fun _ n same => ⟨{ same with error := fun _ => rfl },
      fun other => { same with error := fun e => absurd e.symm other }⟩
  · exact exists_bind_ok h fun part n same => ⟨
      { same with files := fun e => congrArg (· ++ [part]) (same.files e) },
      fun other => { same with files := fun e => absurd e.symm other }⟩
  · cases h
    exact ⟨s', rfl, local_self response number s s'⟩

theorem local_generatedFile {s t : GeneratedFile} (s' : GeneratedFile) {f : Wire.Field}
    (h : s.step f = .ok t) :
    ∃ t', s'.step f = .ok t' ∧ generatedFile.Local f.number s s' t t' := by
  obtain ⟨number, value, start⟩ := f
  simp only [GeneratedFile.step] at h ⊢
  split at h
  · exact exists_bind_ok h fun _ n same => ⟨{ same with name := fun _ => rfl },
      fun other => { same with name := fun e => absurd e.symm other }⟩
  · exact exists_bind_ok h fun _ n same => ⟨{ same with content := fun _ => rfl },
      fun other => { same with content := fun e => absurd e.symm other }⟩
  · cases h
    exact ⟨s', rfl, local_self generatedFile number s s'⟩

theorem optionsSameAt_insert {α : Type} {table : List (Nat × Text)} {number n : Nat} {name : Text}
    {a b : OrderedMap α} (value : α) (known : optionOf? table number = some name)
    (same : OptionsSameAt table n a b) :
    OptionsSameAt table n (a.insert name value) (b.insert name value) ∧
      (number ≠ n → OptionsSameAt table n (a.insert name value) b) := by
  refine ⟨fun name' only => ?_, fun other name' only => ?_⟩
  · simp only [OrderedMap.get?_insert, same name' only]
  · have unlike : name' ≠ name := by
      rintro rfl
      exact other (only number known)
    rw [OrderedMap.get?_insert, if_neg unlike, same name' only]

theorem local_textOptions (table : List (Nat × Text)) {s t : OrderedMap Text} (s' : OrderedMap Text)
    {f : Wire.Field} (h : textOptionStep table s f = .ok t) :
    ∃ t', textOptionStep table s' f = .ok t' ∧
      (textOptions table).Local f.number s s' t t' := by
  simp only [textOptionStep] at h ⊢
  split at h
  · rename_i known _
    exact exists_bind_ok h fun text n => optionsSameAt_insert text known
  · cases h
    exact ⟨s', rfl, local_self (textOptions table) f.number s s'⟩

theorem local_flagOptions (table : List (Nat × Text)) {s t : OrderedMap Bool} (s' : OrderedMap Bool)
    {f : Wire.Field} (h : flagOptionStep table s f = .ok t) :
    ∃ t', flagOptionStep table s' f = .ok t' ∧
      (flagOptions table).Local f.number s s' t t' := by
  simp only [flagOptionStep] at h ⊢
  split at h
  · rename_i known _
    cases h
    exact ⟨_, rfl, fun n => optionsSameAt_insert _ known⟩
  · cases h
    exact ⟨s', rfl, local_self (flagOptions table) f.number s s'⟩

/-- Whether a field is taken does not depend on the message; and it changes its own slot only, by
what was in that slot. -/
theorem step_local {s t : type.Content} (s' : type.Content) {f : Wire.Field}
    (h : type.step s f = .ok t) :
    ∃ t', type.step s' f = .ok t' ∧ type.Local f.number s s' t t' := by
  cases type with
  | request => exact local_request s' h
  | file => exact local_file s' h
  | message levels => exact local_message levels s' h
  | field => exact local_field s' h
  | enum => exact local_enum s' h
  | enumValue => exact local_enumValue s' h
  | textOptions table => exact local_textOptions table s' h
  | flagOptions table => exact local_flagOptions table s' h
  | response => exact local_response s' h
  | generatedFile => exact local_generatedFile s' h

/-- No option of the type has two numbers. -/
def Distinct : MessageType → Prop
  | textOptions table | flagOptions table => (table.map Prod.snd).Nodup
  | _ => True

theorem distinct_of_part? {type part : MessageType} {number : Nat}
    (known : type.part? number = some part) : part.Distinct := by
  unfold part? at known
  split at known <;> cases known
  case h_4 => exact (by decide : (fileOptions.map Prod.snd).Nodup)
  case h_8 => exact (by decide : (messageOptions.map Prod.snd).Nodup)
  case h_9 => exact (by decide : (fieldOptions.map Prod.snd).Nodup)
  all_goals exact trivial

/-- Equal; of options, the order in which they came does not count. -/
def Alike : (type : MessageType) → type.Content → type.Content → Prop
  | textOptions _ => OrderedMap.Agrees
  | flagOptions _ => OrderedMap.Agrees
  | _ => Eq

theorem eq_of_slot {σ α : Type} {P : σ → σ → Prop} {get : σ → α} {t t' : σ}
    (h : ∃ u, P t u ∧ P t' u) (slot : ∀ {a b}, P a b → get a = get b) : get t = get t' := by
  obtain ⟨u, left, right⟩ := h
  exact (slot left).trans (slot right).symm

theorem number_unique {table : List (Nat × Text)} (distinct : (table.map Prod.snd).Nodup)
    {m n : Nat} {name : Text} (hm : optionOf? table m = some name)
    (hn : optionOf? table n = some name) : m = n := by
  obtain ⟨entry, found, rfl⟩ := Option.map_eq_some_iff.1 hm
  obtain ⟨entry', found', same⟩ := Option.map_eq_some_iff.1 hn
  have number : entry.1 = m := by simpa using List.find?_some found
  have number' : entry'.1 = n := by simpa using List.find?_some found'
  rw [← number, ← number', List.inj_on_of_nodup_map distinct (List.mem_of_find?_eq_some found')
    (List.mem_of_find?_eq_some found) same]

theorem agrees_of_slots {α : Type} {table : List (Nat × Text)} {t t' : OrderedMap α}
    (distinct : (table.map Prod.snd).Nodup)
    (h : ∀ n, ∃ u, OptionsSameAt table n t u ∧ OptionsSameAt table n t' u) : t.Agrees t' := by
  intro name
  obtain ⟨n, only⟩ : ∃ n, ∀ m, optionOf? table m = some name → m = n := by
    by_cases known : ∃ n, optionOf? table n = some name
    · obtain ⟨n, known⟩ := known
      exact ⟨n, fun m known' => number_unique distinct known' known⟩
    · exact ⟨0, fun m known' => absurd ⟨m, known'⟩ known⟩
  obtain ⟨u, left, right⟩ := h n
  exact (left name only).trans (right name only).symm

/-- A message is made up of its slots. -/
theorem alike_of_slots (distinct : type.Distinct) {t t' : type.Content}
    (h : ∀ n, ∃ u, type.SameAt n t u ∧ type.SameAt n t' u) : type.Alike t t' := by
  cases type with
  | request =>
    exact Request.ext (eq_of_slot (h 1) fun same => same.filesToGenerate rfl)
      (eq_of_slot (h 2) fun same => same.parameter rfl)
      (eq_of_slot (h 15) fun same => same.protoFiles rfl)
  | file =>
    exact File.ext (eq_of_slot (h 1) fun same => same.name rfl)
      (eq_of_slot (h 2) fun same => same.package rfl)
      (eq_of_slot (h 3) fun same => same.dependencies rfl)
      (eq_of_slot (h 4) fun same => same.messages rfl)
      (eq_of_slot (h 5) fun same => same.enums rfl)
      (eq_of_slot (h 7) fun same => same.options rfl)
  | message levels =>
    exact Message.ext (eq_of_slot (h 1) fun same => same.name rfl)
      (eq_of_slot (h 2) fun same => same.fields rfl)
      (eq_of_slot (h 3) fun same => same.nestedMessages rfl)
      (eq_of_slot (h 4) fun same => same.nestedEnums rfl)
      (eq_of_slot (h 7) fun same => same.options rfl)
  | field =>
    exact Descriptor.Field.ext (eq_of_slot (h 1) fun same => same.name rfl)
      (eq_of_slot (h 3) fun same => same.number rfl)
      (eq_of_slot (h 4) fun same => same.label rfl)
      (eq_of_slot (h 5) fun same => same.type rfl)
      (eq_of_slot (h 6) fun same => same.typeName rfl)
      (eq_of_slot (h 8) fun same => same.options rfl)
  | enum =>
    exact Enum.ext (eq_of_slot (h 1) fun same => same.name rfl)
      (eq_of_slot (h 2) fun same => same.values rfl)
  | enumValue =>
    exact EnumValue.ext (eq_of_slot (h 1) fun same => same.name rfl)
      (eq_of_slot (h 2) fun same => same.number rfl)
  | textOptions table => exact agrees_of_slots distinct h
  | flagOptions table => exact agrees_of_slots distinct h
  | response =>
    exact Response.ext (eq_of_slot (h 1) fun same => same.error rfl)
      (eq_of_slot (h 15) fun same => same.files rfl)
  | generatedFile =>
    exact GeneratedFile.ext (eq_of_slot (h 1) fun same => same.name rfl)
      (eq_of_slot (h 15) fun same => same.content rfl)

end MessageType

end SchemaPlugin
