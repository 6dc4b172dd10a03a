import SchemaPlugin.Proofs.MessageType.Basic
import SchemaPlugin.Proofs.Wire.Failure
import SchemaPlugin.Proofs.Wire.Scan

/-!
Messages that are not read. Up to the field in which the error is the message is read; the error is
that of the field itself, or, if the field is a part, the error of that part, unchanged.
-/

namespace SchemaPlugin.MessageType

open Wire (DecodeError Fault Reader Tag Value WholeField decodeText)

/-- What can be wrong with a value that is whole. -/
inductive OfContent : Fault → Prop
  | text (reason : Utf8.Reason) : OfContent (.invalidText reason)
  | label (n : Nat) : OfContent (.unknownLabel n)

/-- What is wrong with the field at the reader itself. -/
inductive Flawed (type : MessageType) (r : Reader) (e : DecodeError) : Prop
  | tag (failed : r.tag = .error e)
  | guard {tag : Tag} {next : Reader} (read : r.tag = .ok (tag, next))
      (refused : type.guard tag next.offset = .error e)
  | value {tag : Tag} {next : Reader} (read : r.tag = .ok (tag, next))
      (failed : next.value tag.wireType = .error e)
  | content {tag : Tag} {next : Reader} {fault : Fault} (read : r.tag = .ok (tag, next))
      (wrong : OfContent fault) (here : e = ⟨fault, next.offset⟩)

/-- The message is read up to a field with an error of its own. -/
def FailsItself (type : MessageType) (data : Bytes) (e : DecodeError) : Prop :=
  ∃ front next, (Reader.ofBytes data).Passes front next ∧ (∃ s, type.decode front = .ok s) ∧
    type.Flawed next e

/-- The message is read up to a field of that number with that payload. -/
def Meets (type : MessageType) (data : Bytes) (number : Nat) (payload : Bytes) : Prop :=
  ∃ front field back, data = front ++ (field ++ back) ∧ (∃ s, type.decode front = .ok s) ∧
    WholeField number (.lengthDelimited payload) field

variable {type part : MessageType} {data payload : Bytes} {number start : Nat} {e : DecodeError}
  {s : type.Content}

theorem decode_nil (type : MessageType) : type.decode [] = .ok type.blank := by
  rw [decode_eq_fold, Wire.Fields.ofBytes, Reader.ofBytes, Wire.Fields.ofReader_nil,
    Wire.Fields.fold]

theorem Meets.length_lt (meets : type.Meets data number payload) :
    payload.length < data.length := by
  obtain ⟨front, field, back, rfl, -, tag, _, ⟨-, spelled⟩, ⟨_⟩, rfl⟩ := meets
  have := spelled.1.length_pos
  simp only [List.length_append]
  omega

section Step

theorem eq_of_guard_eq_error {tag : Tag} (refused : type.guard tag start = .error e) :
    type = message 0 ∧ tag = ⟨3, .lengthDelimited⟩ ∧
      e = ⟨.nestingTooDeep Descriptor.maxNesting, start⟩ := by
  cases type with
  | message levels =>
    simp only [guard, Descriptor.Message.guard] at refused
    split_ifs at refused with deep
    cases refused
    exact ⟨by rw [deep.1], deep.2, rfl⟩
  | _ => cases refused

/-- The error of a text is at the field. -/
theorem ofContent_of_bind_decodeText {α : Type} {f : Text → α}
    (failed : (decodeText payload start >>= fun text => .ok (f text)) = .error e) :
    ∃ fault, OfContent fault ∧ e = ⟨fault, start⟩ := by
  rw [bind_ok_eq_error_iff, decodeText] at failed
  split at failed
  · cases failed
  · cases failed
    exact ⟨_, .text _, rfl⟩

/-- A field that is not taken is wrong itself, or is a part that is not read. -/
theorem step_error_cases {value : Value} (failed : type.step s ⟨number, value, start⟩ = .error e) :
    (∃ fault, OfContent fault ∧ e = ⟨fault, start⟩) ∨
      ∃ part payload, type.part? number = some part ∧ value = .lengthDelimited payload ∧
        part.decode payload = .error e := by
  cases type with
  | field =>
    simp only [step, Descriptor.Field.step] at failed
    split at failed
    · exact .inl (ofContent_of_bind_decodeText failed)
    · cases failed
    · split at failed
      · cases failed
      · cases failed
        exact .inl ⟨_, .label _, rfl⟩
    · cases failed
    · exact .inl (ofContent_of_bind_decodeText failed)
    · exact .inr ⟨_, _, rfl, rfl, bind_ok_eq_error_iff.1 failed⟩
    · cases failed
  | message levels =>
    simp only [step, Descriptor.Message.step] at failed
    split at failed
    · exact .inl (ofContent_of_bind_decodeText failed)
    · exact .inr ⟨_, _, rfl, rfl, bind_ok_eq_error_iff.1 failed⟩
    · cases levels with
      | zero => cases failed
      | succ levels => exact .inr ⟨_, _, rfl, rfl, bind_ok_eq_error_iff.1 failed⟩
    · exact .inr ⟨_, _, rfl, rfl, bind_ok_eq_error_iff.1 failed⟩
    · exact .inr ⟨_, _, rfl, rfl, bind_ok_eq_error_iff.1 failed⟩
    · cases failed
  | _ =>
    simp only [step, Request.step, Descriptor.File.step, Descriptor.Enum.step,
      Descriptor.EnumValue.step, textOptionStep, flagOptionStep, Response.step,
      GeneratedFile.step] at failed
    split at failed <;> first
      | exact .inl (ofContent_of_bind_decodeText failed)
      | exact .inr ⟨_, _, rfl, rfl, bind_ok_eq_error_iff.1 failed⟩
      | cases failed

/-- A part that is let through and not read is not taken. -/
theorem step_of_part_error (known : type.part? number = some part)
    (passed : type.guard ⟨number, .lengthDelimited⟩ start = .ok ())
    (failed : part.decode payload = .error e) :
    type.step s ⟨number, .lengthDelimited payload, start⟩ = .error e := by
  unfold part? at known
  split at known <;> cases known
  case h_6 levels =>
    cases levels with
    | zero => cases passed
    | succ levels => exact bind_ok_eq_error_iff.2 failed
  all_goals exact bind_ok_eq_error_iff.2 failed

end Step

/-- What is wrong with a message is wrong with a field of it, or with a part. -/
theorem decode_error_cases (failed : type.decode data = .error e) :
    type.FailsItself data e ∨ ∃ number part payload, type.Meets data number payload ∧
      type.guard ⟨number, .lengthDelimited⟩ 0 = .ok () ∧ type.part? number = some part ∧
        part.decode payload = .error e := by
  rw [decode_eq_fold] at failed
  obtain ⟨front, next, s, passes, taken, refuses⟩ := type.steady.fold_eq_error_iff.1 failed
  rw [← decode_eq_fold] at taken
  have itself (flawed : type.Flawed next e) : type.FailsItself data e :=
    ⟨front, next, passes, ⟨s, taken⟩, flawed⟩
  cases refuses with
  | tag more failed => exact .inl (itself (.tag failed))
  | guard read refused => exact .inl (itself (.guard read refused))
  | value read passed failed => exact .inl (itself (.value read failed))
  | @step tag mid last value read passed whole refused =>
    rcases step_error_cases refused with ⟨fault, wrong, here⟩ | ⟨part, payload, known, rfl, failed⟩
    · exact .inl (itself (.content read wrong here))
    · obtain ⟨type, field, spelled, passes'⟩ := WholeField.of_reads read whole
      have meets : Meets _ data tag.number payload :=
        ⟨front, field, last.rest, passes.1.trans (congrArg _ passes'.1), ⟨s, taken⟩, spelled⟩
      obtain ⟨number, wireType⟩ := tag
      cases type
      exact .inr ⟨number, part, payload, meets, guard_at 0 passed, known, failed⟩

/-- The error of a part that is met is that of the message. -/
theorem Meets.decode_eq_error (meets : type.Meets data number payload)
    (passed : type.guard ⟨number, .lengthDelimited⟩ 0 = .ok ())
    (known : type.part? number = some part) (failed : part.decode payload = .error e) :
    type.decode data = .error e := by
  obtain ⟨front, field, back, rfl, ⟨s, taken⟩, whole⟩ := meets
  rw [decode_eq_fold] at taken ⊢
  obtain ⟨mid, read, value⟩ := whole.reads (0 + front.length) back
  have passed := guard_at mid.offset passed
  exact type.steady.fold_eq_error_iff.2 ⟨front, _, s, ⟨rfl, rfl⟩, taken,
    .step read passed value (step_of_part_error known passed failed)⟩

end SchemaPlugin.MessageType
