import Mathlib.Data.List.Forall2
import SchemaPlugin.Proofs.OrderedMap
import SchemaPlugin.Request

/-!
Requests that differ in nothing but the order of options: equal as data whose options are maps
without an order. Files and all lists keep theirs. Taking one more field keeps the agreement.
-/

namespace SchemaPlugin

namespace Descriptor

/-- Options that are the same but for their order. -/
abbrev OptionsAgree {α : Type} : Option (OrderedMap α) → Option (OrderedMap α) → Prop :=
  Option.Rel OrderedMap.Agrees

/-- Part by part. -/
abbrev PartsAgree {α : Type} (R : α → α → Prop) :
    Option (List (Option α)) → Option (List (Option α)) → Prop :=
  Option.Rel (List.Forall₂ (Option.Rel R))

inductive Field.Agrees : Field → Field → Prop
  | mk {name : Option Text} {number : Option Number} {label : Option Label} {type : Option Number}
      {typeName : Option Text} {options options' : Option (OrderedMap Bool)}
      (optionsAgree : OptionsAgree options options') :
      Agrees ⟨name, number, label, type, typeName, options⟩
        ⟨name, number, label, type, typeName, options'⟩

inductive Message.Agrees : Message → Message → Prop
  | mk {name : Option Text} {fields fields' : Option (List (Option Field))}
      {nested nested' : Option (List (Option Message))} {enums : Option (List (Option Enum))}
      {options options' : Option (OrderedMap Bool)}
      (fieldsAgree : PartsAgree Field.Agrees fields fields')
      (nestedAgree : Option.Rel (List.Forall₂ (Option.Rel Message.Agrees)) nested nested')
      (optionsAgree : OptionsAgree options options') :
      Agrees ⟨name, fields, nested, enums, options⟩ ⟨name, fields', nested', enums, options'⟩

inductive File.Agrees : File → File → Prop
  | mk {name package : Option Text} {dependencies : Option (List Text)}
      {messages messages' : Option (List (Option Message))} {enums : Option (List (Option Enum))}
      {options options' : Option (OrderedMap Text)}
      (messagesAgree : PartsAgree Message.Agrees messages messages')
      (optionsAgree : OptionsAgree options options') :
      Agrees ⟨name, package, dependencies, messages, enums, options⟩
        ⟨name, package, dependencies, messages', enums, options'⟩

theorem optionsAgree_refl {α : Type} (options : Option (OrderedMap α)) :
    OptionsAgree options options := by
  cases options with
  | none => exact .none
  | some options => exact .some fun _ => rfl

theorem partsAgree_refl {α : Type} {R : α → α → Prop} {parts : Option (List (Option α))}
    (refl : ∀ as, parts = some as → ∀ a, some a ∈ as → R a a) : PartsAgree R parts parts := by
  cases parts with
  | none => exact .none
  | some parts =>
    refine .some (List.forall₂_same.2 fun part mem => ?_)
    cases part with
    | none => exact .none
    | some a => exact .some (refl parts rfl a mem)

theorem partsAgree_append {α : Type} {R : α → α → Prop} {parts parts' : Option (List (Option α))}
    {a a' : α} (agree : PartsAgree R parts parts') (last : R a a') :
    PartsAgree R (append parts (some a)) (append parts' (some a')) := by
  cases agree with
  | none => exact .none
  | some each => exact .some (List.rel_append each (.cons (.some last) .nil))

theorem Field.Agrees.refl (d : Field) : d.Agrees d := .mk (optionsAgree_refl d.options)

theorem fieldsAgree_refl (fields : Option (List (Option Field))) :
    PartsAgree Field.Agrees fields fields :=
  partsAgree_refl fun _ _ d _ => Field.Agrees.refl d

theorem Message.Agrees.refl (m : Message) : m.Agrees m := by
  induction m using Message.induct with
  | step m ih =>
    obtain ⟨name, fields, nested, enums, options⟩ := m
    exact .mk (fieldsAgree_refl fields) (partsAgree_refl ih) (optionsAgree_refl options)

theorem messagesAgree_refl (messages : Option (List (Option Message))) :
    PartsAgree Message.Agrees messages messages :=
  partsAgree_refl fun _ _ m _ => Message.Agrees.refl m

theorem File.Agrees.refl (d : File) : d.Agrees d :=
  .mk (messagesAgree_refl d.messages) (optionsAgree_refl d.options)

theorem Field.Agrees.step {s s' t : Field} (agrees : s.Agrees s') {f : Wire.Field}
    (h : s.step f = .ok t) : ∃ t', s'.step f = .ok t' ∧ t.Agrees t' := by
  obtain ⟨number, value, start⟩ := f
  obtain ⟨options⟩ := agrees
  simp only [Field.step] at h ⊢
  split at h
  · exact exists_bind_ok h fun _ => .mk options
  · cases h
    exact ⟨_, rfl, .mk options⟩
  · split at h
    · cases h
      exact ⟨_, rfl, .mk options⟩
    · cases h
  · cases h
    exact ⟨_, rfl, .mk options⟩
  · exact exists_bind_ok h fun _ => .mk options
  · exact exists_bind_ok h fun new => .mk (.some fun _ => rfl)
  · cases h
    exact ⟨_, rfl, .mk options⟩

theorem Message.Agrees.step {levels : Nat} {s s' t : Message} (agrees : s.Agrees s')
    {f : Wire.Field} (h : s.step (decodeNested levels) f = .ok t) :
    ∃ t', s'.step (decodeNested levels) f = .ok t' ∧ t.Agrees t' := by
  obtain ⟨number, value, start⟩ := f
  obtain ⟨fields, nested, options⟩ := agrees
  simp only [Message.step] at h ⊢
  split at h
  · exact exists_bind_ok h fun _ => .mk fields nested options
  · exact exists_bind_ok h fun new =>
      .mk (partsAgree_append fields (Field.Agrees.refl new)) nested options
  · exact exists_bind_ok h fun new =>
      .mk fields (partsAgree_append nested (Message.Agrees.refl new)) options
  · exact exists_bind_ok h fun _ => .mk fields nested options
  · exact exists_bind_ok h fun new => .mk fields nested (.some fun _ => rfl)
  · cases h
    exact ⟨_, rfl, .mk fields nested options⟩

theorem File.Agrees.step {s s' t : File} (agrees : s.Agrees s') {f : Wire.Field}
    (h : s.step f = .ok t) : ∃ t', s'.step f = .ok t' ∧ t.Agrees t' := by
  obtain ⟨number, value, start⟩ := f
  obtain ⟨messages, options⟩ := agrees
  simp only [File.step] at h ⊢
  split at h
  · exact exists_bind_ok h fun _ => .mk messages options
  · exact exists_bind_ok h fun _ => .mk messages options
  · exact exists_bind_ok h fun _ => .mk messages options
  · exact exists_bind_ok h fun new =>
      .mk (partsAgree_append messages (Message.Agrees.refl new)) options
  · exact exists_bind_ok h fun _ => .mk messages options
  · exact exists_bind_ok h fun new => .mk messages (.some fun _ => rfl)
  · cases h
    exact ⟨_, rfl, .mk messages options⟩

end Descriptor

/-- Files that agree, under the same names and in the same order. -/
abbrev FilesAgree : List (Text × Descriptor.File) → List (Text × Descriptor.File) → Prop :=
  List.Forall₂ fun entry entry' => entry.1 = entry'.1 ∧ entry.2.Agrees entry'.2

namespace Request

open Descriptor (File)

inductive Agrees : Request → Request → Prop
  | mk {names : Option (List Text)} {parameter : Option Text} {files files' : OrderedMap File}
      (filesAgree : FilesAgree files.entries files'.entries) :
      Agrees ⟨names, parameter, files⟩ ⟨names, parameter, files'⟩

theorem filesAgree_refl (entries : List (Text × File)) : FilesAgree entries entries :=
  List.forall₂_same.2 fun entry _ => ⟨rfl, File.Agrees.refl entry.2⟩

theorem Agrees.refl (r : Request) : r.Agrees r := .mk (filesAgree_refl r.protoFiles.entries)

theorem filesAgree_assign {entries entries' : List (Text × File)} {key : Text} {file file' : File}
    (each : FilesAgree entries entries') (agrees : file.Agrees file') :
    FilesAgree (OrderedMap.assign key file entries) (OrderedMap.assign key file' entries') := by
  induction each with
  | nil => exact .cons ⟨rfl, agrees⟩ .nil
  | @cons entry entry' rest rest' first others ih =>
    rw [OrderedMap.assign, OrderedMap.assign, first.1]
    split_ifs
    · exact .cons ⟨rfl, agrees⟩ others
    · exact .cons first ih

/-- What is made of files that agree agrees. -/
theorem agrees_filed {r r' : Request} {file file' : File} (agrees : r.Agrees r')
    (filed : file.Agrees file') :
    (if file.name = some [] then r else r.addFile file).Agrees
      (if file'.name = some [] then r' else r'.addFile file') := by
  obtain ⟨files⟩ := agrees
  have name : file.name = file'.name := by cases filed; rfl
  rw [name]
  split_ifs
  · exact .mk files
  · rw [addFile, addFile, name]
    exact .mk (filesAgree_assign files filed)

theorem Agrees.step {s s' t : Request} (agrees : s.Agrees s') {f : Wire.Field}
    (h : s.step f = .ok t) : ∃ t', s'.step f = .ok t' ∧ t.Agrees t' := by
  obtain ⟨number, value, start⟩ := f
  simp only [Request.step] at h ⊢
  split at h
  · obtain ⟨files⟩ := agrees
    exact exists_bind_ok h fun _ => .mk files
  · obtain ⟨files⟩ := agrees
    exact exists_bind_ok h fun _ => .mk files
  · exact exists_bind_ok h fun file => agrees_filed agrees (File.Agrees.refl file)
  · cases h
    exact ⟨s', rfl, agrees⟩

end Request

end SchemaPlugin
