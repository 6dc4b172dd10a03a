import SchemaPlugin.Proofs.Wire.FieldRuns
import SchemaPlugin.Request

/-!
The bytes that are requests. A message is a sequence of whole fields; of a field that its parser
knows, by number and wire type, the payload is a text, a message of its own or a label, and nothing
is asked of the payload of any other.
-/

namespace SchemaPlugin

open Wire (Sequence Value decodeText_isOk_iff)
open Wire.Fields (exists_fold_iff exists_fold_noGuard_iff)

namespace Descriptor

/-- Whole fields, whatever they hold. -/
def FlagOptions : Bytes → Prop := Sequence fun _ _ => True

/-- Whole fields, the payloads of those that an option has being texts. -/
def TextOptions (table : List (Nat × Text)) : Bytes → Prop :=
  Sequence fun number value => ∀ payload, value = .lengthDelimited payload →
    number ∈ table.map Prod.fst → Utf8.WellFormed payload

theorem decodeFlagOptions_isOk_iff {table : List (Nat × Text)} {bytes : Bytes} :
    (∃ options, decodeFlagOptions table bytes = .ok options) ↔ FlagOptions bytes := by
  refine exists_fold_noGuard_iff (fun options f => ?_) ∅ bytes
  split <;> simp

theorem optionOf?_eq_none_iff {table : List (Nat × Text)} {number : Nat} :
    optionOf? table number = none ↔ number ∉ table.map Prod.fst := by
  simp only [optionOf?, Option.map_eq_none_iff, List.find?_eq_none, decide_eq_true_eq,
    List.mem_map, not_exists, not_and]

theorem decodeTextOptions_isOk_iff {table : List (Nat × Text)} {bytes : Bytes} :
    (∃ options, decodeTextOptions table bytes = .ok options) ↔ TextOptions table bytes := by
  refine exists_fold_noGuard_iff (fun options f => ?_) ∅ bytes
  obtain ⟨number, value, start⟩ := f
  cases known : optionOf? table number with
  | none => simp [optionOf?_eq_none_iff.1 known]
  | some name =>
    have listed : number ∈ table.map Prod.fst := by
      by_contra unlisted
      rw [optionOf?_eq_none_iff.2 unlisted] at known
      cases known
    cases value with
    | lengthDelimited payload =>
      simp only [Value.lengthDelimited.injEq, forall_eq', listed, true_imp_iff]
      exact exists_bind_ok_iff.trans decodeText_isOk_iff
    | varint | fixed64 | fixed32 => simp

namespace EnumValue

def Admits : Nat → Value → Prop
  | 1, .lengthDelimited payload => Utf8.WellFormed payload
  | _, _ => True

def Accepts : Bytes → Prop := Sequence Admits

theorem step_isOk_iff (v : EnumValue) (f : Wire.Field) :
    (∃ v', v.step f = .ok v') ↔ Admits f.number f.value := by
  obtain ⟨number, value, start⟩ := f
  simp only [step, Admits]
  split
  · exact exists_bind_ok_iff.trans decodeText_isOk_iff
  · simp
  · simp

theorem decode_isOk_iff {bytes : Bytes} : (∃ v, decode bytes = .ok v) ↔ Accepts bytes :=
  exists_fold_noGuard_iff step_isOk_iff {} bytes

end EnumValue

namespace Enum

def Admits : Nat → Value → Prop
  | 1, .lengthDelimited payload => Utf8.WellFormed payload
  | 2, .lengthDelimited payload => EnumValue.Accepts payload
  | _, _ => True

def Accepts : Bytes → Prop := Sequence Admits

theorem step_isOk_iff (e : Enum) (f : Wire.Field) :
    (∃ e', e.step f = .ok e') ↔ Admits f.number f.value := by
  obtain ⟨number, value, start⟩ := f
  simp only [step, Admits]
  split
  · exact exists_bind_ok_iff.trans decodeText_isOk_iff
  · exact exists_bind_ok_iff.trans EnumValue.decode_isOk_iff
  · simp

theorem decode_isOk_iff {bytes : Bytes} : (∃ e, decode bytes = .ok e) ↔ Accepts bytes :=
  exists_fold_noGuard_iff step_isOk_iff {} bytes

end Enum

theorem Label.ofNumber?_isSome_iff {n : Nat} :
    (∃ label, Label.ofNumber? n = some label) ↔ n = 1 ∨ n = 2 ∨ n = 3 := by
  unfold Label.ofNumber?
  split_ifs <;> simp <;> omega

namespace Field

def Admits : Nat → Value → Prop
  | 1, .lengthDelimited payload => Utf8.WellFormed payload
  | 4, .varint n => n = 1 ∨ n = 2 ∨ n = 3
  | 6, .lengthDelimited payload => Utf8.WellFormed payload
  | 8, .lengthDelimited payload => FlagOptions payload
  | _, _ => True

def Accepts : Bytes → Prop := Sequence Admits

theorem step_isOk_iff (d : Field) (f : Wire.Field) :
    (∃ d', d.step f = .ok d') ↔ Admits f.number f.value := by
  obtain ⟨number, value, start⟩ := f
  simp only [step, Admits]
  split
  · exact exists_bind_ok_iff.trans decodeText_isOk_iff
  · simp
  · rename_i n
    refine Iff.trans ?_ Label.ofNumber?_isSome_iff
    cases Label.ofNumber? n <;> simp
  · simp
  · exact exists_bind_ok_iff.trans decodeText_isOk_iff
  · exact exists_bind_ok_iff.trans decodeFlagOptions_isOk_iff
  · simp

theorem decode_isOk_iff {bytes : Bytes} : (∃ d, decode bytes = .ok d) ↔ Accepts bytes :=
  exists_fold_noGuard_iff step_isOk_iff {} bytes

end Field

namespace Message

def Admits (nested : Bytes → Prop) : Nat → Value → Prop
  | 1, .lengthDelimited payload => Utf8.WellFormed payload
  | 2, .lengthDelimited payload => Field.Accepts payload
  | 3, .lengthDelimited payload => nested payload
  | 4, .lengthDelimited payload => Enum.Accepts payload
  | 7, .lengthDelimited payload => FlagOptions payload
  | _, _ => True

/-- Messages of no more than some number of levels. -/
def Accepts : (levels : Nat) → Bytes → Prop
  | 0, _ => False
  | levels + 1, bytes => Sequence (Admits (Accepts levels)) bytes

theorem step_isOk_iff {decodeNested : Bytes → Except Wire.DecodeError Message}
    (m : Message) (f : Wire.Field) :
    (∃ m', step decodeNested m f = .ok m') ↔
      Admits (fun payload => ∃ m, decodeNested payload = .ok m) f.number f.value := by
  obtain ⟨number, value, start⟩ := f
  simp only [step, Admits]
  split
  · exact exists_bind_ok_iff.trans decodeText_isOk_iff
  · exact exists_bind_ok_iff.trans Field.decode_isOk_iff
  · exact exists_bind_ok_iff
  · exact exists_bind_ok_iff.trans Enum.decode_isOk_iff
  · exact exists_bind_ok_iff.trans decodeFlagOptions_isOk_iff
  · simp

/-- Only the payload of a nested message is asked whether it is one. -/
theorem admits_congr {nested nested' : Bytes → Prop} {number : Nat} {value : Value}
    (h : (⟨number, value.wireType⟩ : Wire.Tag) ≠ ⟨3, .lengthDelimited⟩) :
    Admits nested number value ↔ Admits nested' number value := by
  unfold Admits
  split <;> first | rfl | exact absurd rfl h

theorem decode_isOk_iff {levels : Nat} {bytes : Bytes} :
    (∃ m, decode levels bytes = .ok m) ↔ Accepts (levels + 1) bytes := by
  induction levels generalizing bytes with
  | zero =>
    -- The step would take a nested message here, but the guard does not let it come so far.
    simp only [decode_eq]
    rw [Accepts]
    refine exists_fold_iff (fun m f => ?_) _ (Wire.Reader.ofBytes bytes)
    obtain ⟨number, value, start⟩ := f
    rw [step_isOk_iff]
    by_cases nests : (⟨number, value.wireType⟩ : Wire.Tag) = ⟨3, .lengthDelimited⟩
    · cases value <;> cases nests
      simp [guard, Wire.Field.tag, Value.wireType, Admits, Accepts]
    · rw [admits_congr nests]
      exact and_iff_right (if_neg fun refused => nests refused.2)
  | succ levels ih =>
    have same : (fun payload => ∃ m, decodeNested (levels + 1) payload = .ok m) =
        Accepts (levels + 1) :=
      funext fun _ => propext ih
    simp only [decode_eq]
    rw [Accepts]
    refine exists_fold_iff (fun m f => ?_) _ (Wire.Reader.ofBytes bytes)
    rw [step_isOk_iff, same]
    exact and_iff_right (guard_succ levels _ _)

end Message

namespace File

def Admits : Nat → Value → Prop
  | 1, .lengthDelimited payload => Utf8.WellFormed payload
  | 2, .lengthDelimited payload => Utf8.WellFormed payload
  | 3, .lengthDelimited payload => Utf8.WellFormed payload
  | 4, .lengthDelimited payload => Message.Accepts maxNesting payload
  | 5, .lengthDelimited payload => Enum.Accepts payload
  | 7, .lengthDelimited payload => TextOptions fileOptions payload
  | _, _ => True

def Accepts : Bytes → Prop := Sequence Admits

theorem step_isOk_iff (d : File) (f : Wire.Field) :
    (∃ d', d.step f = .ok d') ↔ Admits f.number f.value := by
  obtain ⟨number, value, start⟩ := f
  simp only [step, Admits]
  split
  · exact exists_bind_ok_iff.trans decodeText_isOk_iff
  · exact exists_bind_ok_iff.trans decodeText_isOk_iff
  · exact exists_bind_ok_iff.trans decodeText_isOk_iff
  · exact exists_bind_ok_iff.trans Message.decode_isOk_iff
  · exact exists_bind_ok_iff.trans Enum.decode_isOk_iff
  · exact exists_bind_ok_iff.trans decodeTextOptions_isOk_iff
  · simp

theorem decode_isOk_iff {bytes : Bytes} : (∃ d, decode bytes = .ok d) ↔ Accepts bytes :=
  exists_fold_noGuard_iff step_isOk_iff {} bytes

end File

end Descriptor

namespace Request

/-- What a request asks of its fields; of a file it asks so much even if it has no name. -/
def Admits : Nat → Value → Prop
  | 1, .lengthDelimited payload => Utf8.WellFormed payload
  | 2, .lengthDelimited payload => Utf8.WellFormed payload
  | 15, .lengthDelimited payload => Descriptor.File.Accepts payload
  | _, _ => True

def Accepts : Bytes → Prop := Sequence Admits

theorem step_isOk_iff (r : Request) (f : Wire.Field) :
    (∃ r', r.step f = .ok r') ↔ Admits f.number f.value := by
  obtain ⟨number, value, start⟩ := f
  simp only [step, Admits]
  split
  · exact exists_bind_ok_iff.trans decodeText_isOk_iff
  · exact exists_bind_ok_iff.trans decodeText_isOk_iff
  · exact exists_bind_ok_iff.trans Descriptor.File.decode_isOk_iff
  · simp

/-- The requests are the bytes of the grammar; all others are refused, and the refusal of an attempt
is the same. -/
theorem decode_iff_accepts (bytes : Bytes) :
    ((∃ r, decode bytes = .ok r ∧ tryDecode bytes = .decoded r) ↔ Accepts bytes) ∧
      (¬Accepts bytes → ∃ e, decode bytes = .error e ∧ tryDecode bytes = .failed e) := by
  have accepted : (∃ r, decode bytes = .ok r) ↔ Accepts bytes :=
    exists_fold_noGuard_iff step_isOk_iff {} bytes
  rw [← accepted]
  cases h : decode bytes <;> simp [tryDecode, h]

end Request

end SchemaPlugin
