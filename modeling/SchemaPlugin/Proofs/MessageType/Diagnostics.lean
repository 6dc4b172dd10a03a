import SchemaPlugin.Proofs.MessageType.Failure
import SchemaPlugin.Proofs.Wire.Diagnostics

/-!
What the error of a message tells. It is the error of one buffer, that of the message or of a part
of it at some depth, and what it says of offsets and bytes is true of this buffer.
-/

namespace SchemaPlugin.MessageType

open Wire (DecodeError Reader ReaderSession)

/-- The buffer of a message itself, or of one of its parts, at any depth. -/
inductive Embeds : MessageType → Bytes → MessageType → Bytes → Prop
  | self (type : MessageType) (data : Bytes) : Embeds type data type data
  | part {type part inner : MessageType} {data payload buffer : Bytes} {number : Nat}
      (meets : type.Meets data number payload) (known : type.part? number = some part)
      (inside : Embeds part payload inner buffer) : Embeds type data inner buffer

variable {type : MessageType} {data : Bytes} {e : DecodeError}

theorem Flawed.truthful {r : Reader} (flawed : type.Flawed r e) : e.Truthful r.size := by
  cases flawed with
  | tag failed => exact (Reader.found_tag failed).truthful
  | guard read refused =>
    obtain ⟨-, -, rfl⟩ := eq_of_guard_eq_error refused
    exact (Reader.advances_tag read).reaches.size_eq ▸ Reader.truthful_here rfl
  | value read failed =>
    exact (Reader.advances_tag read).reaches.size_eq ▸ (Reader.found_value failed).truthful
  | content read wrong here =>
    subst here
    refine (Reader.advances_tag read).reaches.size_eq ▸ Reader.truthful_here ?_
    cases wrong with
    | text | label => rfl

theorem size_ofBytes (data : Bytes) : (Reader.ofBytes data).size = data.length := Nat.zero_add _

theorem FailsItself.truthful (fails : type.FailsItself data e) : e.Truthful data.length := by
  obtain ⟨front, next, passes, -, flawed⟩ := fails
  have reaches : (Reader.ofBytes data).Reaches next := ⟨front, passes⟩
  rw [← size_ofBytes, ← reaches.size_eq]
  exact flawed.truthful

theorem exists_embeds_of_error (failed : type.decode data = .error e) :
    ∃ inner buffer, Embeds type data inner buffer ∧ inner.decode buffer = .error e ∧
      e.Truthful buffer.length := by
  -- The payload of a part is shorter than the message.
  induction length : data.length using Nat.strongRecOn generalizing type data with
  | _ n ih =>
    rcases decode_error_cases failed with fails | ⟨number, part, payload, meets, -, known, inside⟩
    · exact ⟨type, data, .self type data, failed, fails.truthful⟩
    · obtain ⟨inner, buffer, embeds, failed', truthful⟩ :=
        ih payload.length (length ▸ meets.length_lt) inside rfl
      exact ⟨inner, buffer, .part meets known embeds, failed', truthful⟩

/-- Errors are told as they are, whether they come of reading a message or of any operations on a
reader. -/
theorem error_truthful (data : Bytes) :
    (∀ (type : MessageType) e, type.decode data = .error e →
      ∃ inner buffer, Embeds type data inner buffer ∧ inner.decode buffer = .error e ∧
        e.Truthful buffer.length) ∧
    ∀ before op e, (((ReaderSession.ofBytes data).run before).2.perform op).1 = .error e →
      e.Truthful data.length := by
  refine ⟨fun type e => exists_embeds_of_error, fun before op e failed => ?_⟩
  have reached : (Reader.ofBytes data).Reaches ((ReaderSession.ofBytes data).run before).2.reader :=
    ReaderSession.reaches_run (ReaderSession.ofBytes data) before
  rw [← size_ofBytes, ← reached.size_eq]
  exact ReaderSession.truthful_perform failed

end SchemaPlugin.MessageType
