import SchemaPlugin.Proofs.MessageType.Basic
import SchemaPlugin.Proofs.Wire.ReadBack

/-!
Unknown fields. A message that gains a field which its type does not know is read as before, and so
is a message in a part of which, however deep, a field is gained.
-/

namespace SchemaPlugin.MessageType

open Wire (Value WholeField WholeFields)
open Wire.Fields (Steady wholeField_partField)

/-- The second bytes are the first ones and one more whole field that the message, or one of its
parts, does not know. Where a part gains the field, its length is spelled anew. -/
inductive GainsUnknown : MessageType → Bytes → Bytes → Prop
  | here {type : MessageType} {number : Nat} {value : Value} {front field : Bytes} (back : Bytes)
      (whole : WholeFields front) (gained : WholeField number value field)
      (unknown : ⟨number, value.wireType⟩ ∉ type.tags) :
      GainsUnknown type (front ++ back) (front ++ (field ++ back))
  | inside {type part : MessageType} {number : Nat} {payload payload' front field field' : Bytes}
      (back : Bytes) (whole : WholeFields front) (known : type.part? number = some part)
      (old : WholeField number (.lengthDelimited payload) field)
      (new : WholeField number (.lengthDelimited payload') field')
      (gains : GainsUnknown part payload payload') :
      GainsUnknown type (front ++ (field ++ back)) (front ++ (field' ++ back))

theorem bind_ok_congr {ε α β : Type} {x y : Except ε α} (same : ∀ a, x = .ok a ↔ y = .ok a)
    (f : α → Except ε β) (b : β) : (x >>= f) = .ok b ↔ (y >>= f) = .ok b := by
  simp only [bind_eq_ok_iff, same]

/-- A message takes from its part nothing but what the part is read as. -/
theorem step_part_congr {type part : MessageType} {number start : Nat} {payload payload' : Bytes}
    {s t : type.Content} (known : type.part? number = some part)
    (same : ∀ a, part.decode payload' = .ok a ↔ part.decode payload = .ok a) :
    type.step s ⟨number, .lengthDelimited payload', start⟩ = .ok t ↔
      type.step s ⟨number, .lengthDelimited payload, start⟩ = .ok t := by
  unfold part? at known
  split at known <;> cases known
  case h_6 levels =>
    cases levels with
    | zero => rfl
    | succ levels => exact bind_ok_congr same _ _
  all_goals exact bind_ok_congr same _ _

/-- What a field in between is read as decides how it can be read, whatever stands around it. -/
theorem decode_middle_congr {type : MessageType} {front old new back : Bytes}
    (whole : WholeFields front) (wholeOld : WholeFields old) (wholeNew : WholeFields new)
    (same : ∀ s t, (Wire.Fields.ofBytes new).fold type.guard type.step s = .ok t ↔
      (Wire.Fields.ofBytes old).fold type.guard type.step s = .ok t) (a : type.Content) :
    type.decode (front ++ (new ++ back)) = .ok a ↔ type.decode (front ++ (old ++ back)) = .ok a := by
  have steady := type.steady
  simp only [decode_eq_fold, steady.fold_append_iff whole, steady.fold_append_iff wholeOld,
    steady.fold_append_iff wholeNew, same]

/-- Unknown fields are passed over, in the message and in its parts. -/
theorem decode_gainsUnknown {type : MessageType} {bytes bytes' : Bytes}
    (gains : GainsUnknown type bytes bytes') (a : type.Content) :
    type.decode bytes' = .ok a ↔ type.decode bytes = .ok a := by
  induction gains with
  | @here type number value front field back whole gained unknown =>
    refine decode_middle_congr whole .nil (.single gained trivial) (fun s t => ?_) a
    have alone := type.steady.fold_field_iff (s := s) (t := t) gained 0
    rw [alone, guard_of_not_mem unknown, step_of_not_mem unknown, Wire.Fields.ofBytes,
      Wire.Reader.ofBytes, Wire.Fields.ofReader_nil, Wire.Fields.fold]
    exact and_iff_right rfl
  | @inside type part number payload payload' front field field' back whole known old new _ ih =>
    refine decode_middle_congr whole (.single old trivial) (.single new trivial)
      (fun s t => ?_) a
    rw [type.steady.fold_field_iff new 0, type.steady.fold_field_iff old 0,
      step_part_congr known ih]
    rfl

/-- A file in which there is a message with these fields. -/
def fileAround (fields : Bytes) : Bytes := Encode.partField 1 [0x61] ++ Encode.partField 4 fields

theorem decode_gainsUnknown_nested :
    GainsUnknown .request (Encode.partField 15 (fileAround []))
        (Encode.partField 15 (fileAround (Encode.varintField 1 7))) ∧
      ∃ r, Request.decode (Encode.partField 15 (fileAround [])) = .ok r ∧
        Request.decode (Encode.partField 15 (fileAround (Encode.varintField 1 7))) = .ok r := by
  have name : WholeField 1 (.lengthDelimited [0x61]) (Encode.partField 1 [0x61]) :=
    wholeField_partField (by decide) (by decide)
  have message (fields : Bytes) (size : Addressable fields) :
      WholeField 4 (.lengthDelimited fields) (Encode.partField 4 fields) :=
    wholeField_partField (by decide) size
  have file (fields : Bytes) (size : Addressable (fileAround fields)) :
      WholeField 15 (.lengthDelimited (fileAround fields))
        (Encode.partField 15 (fileAround fields)) :=
    wholeField_partField (by decide) size
  have number : WholeField 1 (.varint 7) (Encode.varintField 1 7) :=
    ⟨_, _, Wire.Fields.spelled_tag (by decide), .varint (Wire.Varint.spelled_ofNat (by decide)),
      rfl⟩
  have inMessage : GainsUnknown (.message 63) [] (Encode.varintField 1 7) := by
    simpa using @GainsUnknown.here (.message 63) _ _ [] _ [] .nil number (by decide)
  have inFile : GainsUnknown .file (fileAround []) (fileAround (Encode.varintField 1 7)) := by
    simpa [fileAround] using GainsUnknown.inside [] (.single name trivial)
      (rfl : part? .file 4 = some (.message 63)) (message [] (by decide))
      (message (Encode.varintField 1 7) (by decide +kernel)) inMessage
  have inRequest : GainsUnknown .request (Encode.partField 15 (fileAround []))
      (Encode.partField 15 (fileAround (Encode.varintField 1 7))) := by
    simpa using GainsUnknown.inside [] .nil (rfl : part? .request 15 = some .file)
      (file [] (by decide +kernel)) (file (Encode.varintField 1 7) (by decide +kernel)) inFile
  have accepted : Request.Accepts (Encode.partField 15 (fileAround [])) := by
    have text : Utf8.WellFormed [0x61] := ⟨"a", by decide, by decide⟩
    have fields : Descriptor.File.Accepts (fileAround []) :=
      .field name text (.single (message [] (by decide)) Wire.Sequence.nil)
    exact .single (file [] (by decide +kernel)) fields
  obtain ⟨r, read⟩ := (Wire.Fields.exists_fold_noGuard_iff Request.step_isOk_iff {} _).2 accepted
  exact ⟨inRequest, r, read, (decode_gainsUnknown inRequest r).2 read⟩

end SchemaPlugin.MessageType
