import SchemaPlugin.Proofs.Text.Sequences
import SchemaPlugin.Proofs.Wire.Tag
import SchemaPlugin.Wire.ReaderSession
import SchemaPlugin.Wire.Writer

/-!
Texts on the wire. A payload is read as a text if it is well-formed UTF-8, and the text is written
as that payload again, behind the shortest length prefix. Another payload is refused for what is
wrong where it first breaks off.
-/

namespace SchemaPlugin.Wire

open Utf8 (EndsInside Sequences StartsWrong)

variable {payload : Bytes}

theorem decodeText_eq_error_iff {start : Nat} {e : DecodeError} :
    decodeText payload start = .error e ↔
      ∃ m, Utf8.decode payload = .error m ∧ e = ⟨.invalidText m.reason, start⟩ := by
  rw [decodeText]
  cases Utf8.decode payload <;> simp [eq_comm]

theorem textBytes_of_decode {t : Text} (h : Utf8.decode payload = .ok t) :
    Writer.textBytes t = .ok (delimitedBytes payload) := by
  rw [Writer.textBytes, Utf8.encode_eq_ok_iff.2 (Utf8.decode_eq_ok_iff.1 h)]

theorem reason_iff {m : Utf8.Malformed} (h : Utf8.decode payload = .error m)
    (reason : Utf8.Reason) :
    m.reason = reason ↔ ∃ m', Utf8.decode payload = .error m' ∧ m'.reason = reason := by
  simp [h]

/-- The reason for which a payload is refused, by where it breaks off. -/
theorem reason_text_iff {m : Utf8.Malformed} (h : Utf8.decode payload = .error m) :
    (m.reason.text = "unexpected end of data" ↔ EndsInside payload) ∧
      (m.reason.text = "invalid start byte" ↔ StartsWrong payload) ∧
      (m.reason.text = "invalid continuation byte" ↔
        ¬EndsInside payload ∧ ¬StartsWrong payload) := by
  rw [← Utf8.decode_endOfData_iff, ← Utf8.decode_startByte_iff, ← reason_iff h, ← reason_iff h]
  cases m.reason <;> decide

namespace Reader

variable {r next : Reader}

/-- A text is read from just the payloads that are one sequence of UTF-8 after the other, and such a
text is written as the payload behind its length, in as few bytes as spell that. Another payload is
refused at its length prefix. The reason is the end of the data where that lies inside a sequence,
the start byte where none begins with it, all before being whole, and the continuation byte where it
is neither. -/
theorem text_exactly (read : r.delimited = .ok (payload, next)) :
    r.text.2 = next ∧
    ((∃ t, r.text.1 = .ok t) ↔ Sequences payload) ∧
    (∀ t, r.text.1 = .ok t → ∀ w : Writer, ∃ length,
      w.perform (.text t) = (.ok (), w ++ (length ++ payload)) ∧
        Varint.Groups length payload.length ∧
          ∀ other, Varint.Groups other payload.length → length.length ≤ other.length) ∧
    ∀ e, r.text.1 = .error e → e.offset = r.offset ∧ ∃ reason, e.fault = .invalidText reason ∧
      (reason.text = "unexpected end of data" ↔ EndsInside payload) ∧
      (reason.text = "invalid start byte" ↔ StartsWrong payload) ∧
      (reason.text = "invalid continuation byte" ↔
        ¬EndsInside payload ∧ ¬StartsWrong payload) := by
  have eq : r.text = (decodeText payload r.offset, next) := by rw [text, read]
  rw [eq]
  refine ⟨rfl, ?_, fun t decoded w => ?_, fun e failed => ?_⟩
  · exact decodeText_isOk_iff.trans Utf8.sequences_iff_wellFormed.symm
  · refine ⟨_, ?_, Varint.groups_ofNat _, fun other spells => spells.length_ofNat_le⟩
    have written := textBytes_of_decode (decodeText_eq_ok_iff.1 decoded)
    rw [Writer.perform, Writer.pieces, written]
    rfl
  · obtain ⟨m, refused, rfl⟩ := decodeText_eq_error_iff.1 failed
    exact ⟨rfl, m.reason, rfl, reason_text_iff refused⟩

/-- A text behind a padded length, the start of a euro sign, a stray continuation byte, and the
bytes that a surrogate would have. -/
theorem text_exactly_samples :
    (∃ t, (Reader.ofBytes [0x82, 0x00, 0xC3, 0xA9]).text.1 = .ok t) ∧ Sequences [0xC3, 0xA9] ∧
      EndsInside [0x41, 0xE2, 0x82] ∧ StartsWrong [0x41, 0x80] ∧
      ¬EndsInside [0xED, 0xA0, 0x80] ∧ ¬StartsWrong [0xED, 0xA0, 0x80] := by
  have padded : (Reader.ofBytes [0x82, 0x00, 0xC3, 0xA9]).delimited =
      .ok ([0xC3, 0xA9], ⟨4, []⟩) := by decide
  have cut : (Reader.ofBytes [0x03, 0x41, 0xE2, 0x82]).delimited =
      .ok ([0x41, 0xE2, 0x82], ⟨4, []⟩) := by decide
  have stray : (Reader.ofBytes [0x02, 0x41, 0x80]).delimited =
      .ok ([0x41, 0x80], ⟨3, []⟩) := by decide
  have surrogate : (Reader.ofBytes [0x03, 0xED, 0xA0, 0x80]).delimited =
      .ok ([0xED, 0xA0, 0x80], ⟨4, []⟩) := by decide
  obtain ⟨-, whole, -⟩ := text_exactly padded
  obtain ⟨-, -, -, ended⟩ := text_exactly cut
  obtain ⟨-, -, -, started⟩ := text_exactly stray
  obtain ⟨-, -, -, continued⟩ := text_exactly surrogate
  have read : ∃ t, (Reader.ofBytes [0x82, 0x00, 0xC3, 0xA9]).text.1 = .ok t :=
    ⟨[.ofNat 0xE9], by cbv⟩
  obtain ⟨-, _, fault, inside, -⟩ := ended ⟨.invalidText .endOfData, 0⟩ (by cbv)
  obtain ⟨-, _, fault', -, start, -⟩ := started ⟨.invalidText .startByte, 0⟩ (by cbv)
  obtain ⟨-, _, fault'', -, -, neither⟩ := continued ⟨.invalidText .continuationByte, 0⟩ (by cbv)
  cases fault
  cases fault'
  cases fault''
  exact ⟨read, whole.1 read, inside.1 rfl, start.1 rfl, (neither.1 rfl).1, (neither.1 rfl).2⟩

end Reader

end SchemaPlugin.Wire
