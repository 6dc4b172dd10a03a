import SchemaPlugin.Proofs.MessageType.Basic
import SchemaPlugin.Proofs.Request.Canonical
import SchemaPlugin.Proofs.Wire.Truncation

/-!
Messages cut off. Of a message that is read, the beginnings that are read are those that end between
two of its fields; of every other one it is said that its data end too early.
-/

namespace SchemaPlugin.MessageType

open Wire (WholeField WholeFields)
open Wire.Fields (ofReader_badValue)

/-- The cut is at an end of the message or between two of its fields. -/
def Between (front back : Bytes) : Prop := WholeFields front ∧ WholeFields back

theorem decode_cut {type : MessageType} {cut rest : Bytes} {a : type.Content}
    (accepted : type.decode (cut ++ rest) = .ok a) :
    ((∃ b, type.decode cut = .ok b) ↔ Between cut rest) ∧
      (¬Between cut rest → ∃ e, type.decode cut = .error e ∧
        Text.ofString "Unexpected end of data" <+: e.message) := by
  simp only [decode_eq_fold] at accepted ⊢
  have steady := type.steady
  have early (inside : ¬Between cut rest) := steady.fold_cut accepted inside
  refine ⟨⟨?_, ?_⟩, ?_⟩
  · rintro ⟨b, read⟩
    by_contra inside
    obtain ⟨e, failed, -⟩ := early inside
    rw [failed] at read
    cases read
  · intro between
    obtain ⟨b, read, -⟩ := (steady.fold_append_iff between.1).1 accepted
    exact ⟨b, read⟩
  · intro inside
    obtain ⟨e, failed, isCut⟩ := early inside
    exact ⟨e, failed, e.message_of_isCut isCut⟩

theorem decode_cut_roundabout :
    (∃ r, Request.decode [0x12, 0x01, 0x61] = .ok r) ∧
      ∃ e, Request.decode [0x12, 0x01] = .error e ∧
        Text.ofString "Unexpected end of data" <+: e.message := by
  have parameter (b : UInt8) : WholeField 2 (.lengthDelimited [b]) [0x12, 0x01, b] :=
    ⟨[0x12], [0x01, b],
      ⟨(by decide : 0 < 2), .last (by decide), by decide, (by decide : 18 < Wire.word64)⟩,
      @Wire.Value.Spelled.lengthDelimited [0x01] [b]
        ⟨.last (by decide), by decide, (by decide : 1 < Wire.word64)⟩, rfl⟩
  have overlong : WholeField 9 (.varint 1) [0xC8, 0x00, 0x81, 0x00] :=
    ⟨[0xC8, 0x00], [0x81, 0x00],
      ⟨by decide, .more (by decide) (.last (by decide)), by decide, by decide⟩,
      .varint ⟨.more (by decide) (.last (by decide)), by decide, by decide⟩, rfl⟩
  have rest : WholeFields [0xC8, 0x00, 0x81, 0x00, 0x12, 0x01, 0x62] :=
    .field overlong trivial (.single (parameter 0x62) trivial)
  have failed : ∃ e, Request.decode [0x12, 0x01] = .error e := by
    rw [Request.decode, Wire.Fields.ofBytes, ofReader_badValue rfl rfl]
    exact ⟨_, rfl⟩
  have atEnd := @decode_cut .request [0x12, 0x01, 0x61] _ _ Request.decode_roundabout
  have inValue := @decode_cut .request [0x12, 0x01] _ _ Request.decode_roundabout
  refine ⟨atEnd.1.2 ⟨.single (parameter 0x61) trivial, rest⟩, inValue.2 fun between => ?_⟩
  obtain ⟨r, read⟩ := inValue.1.2 between
  obtain ⟨e, failed⟩ := failed
  rw [decode, failed] at read
  cases read

end SchemaPlugin.MessageType
