import Mathlib.Data.List.Basic
import SchemaPlugin.Proofs.Descriptor.Canonical
import SchemaPlugin.Proofs.Request.RoundTrip

/-!
Writing what was read. A request read from bytes is canonical, so that encoding keeps all of it: the
bytes that it is written as stand for it alone, and to read and write them changes nothing.
-/

namespace SchemaPlugin.Request

open Wire (DecodeError)
open Wire.Fields (ofReader_field ofReader_nil run_of_fold)

inductive Canonical : Request → Prop
  | mk {names : List Text} {parameter : Text} {files : OrderedMap Descriptor.File}
      (namesEncodable : ∀ t ∈ names, t.Encodable) (parameterEncodable : parameter.Encodable)
      (filesCanonical : ∀ entry ∈ files.entries, entry.2.Canonical)
      (named : ∀ entry ∈ files.entries, entry.2.name = some entry.1 ∧ entry.1 ≠ []) :
      Canonical ⟨some names, some parameter, files⟩

/-- Files that are under their own names are filed as they are. -/
theorem foldl_file {files : OrderedMap Descriptor.File}
    (named : ∀ entry ∈ files.entries, entry.2.name = some entry.1 ∧ entry.1 ≠ []) :
    files.values.foldl file ∅ = files := by
  rw [OrderedMap.values, List.foldl_map]
  refine Eq.trans (List.foldl_ext _ _ _ fun files entry he => ?_) files.ofList_entries
  obtain ⟨own, nonempty⟩ := named entry he
  rw [file, own, if_neg (by simpa using nonempty), Option.getD_some]

namespace Canonical

variable {r r' : Request}

theorem wellTyped (h : r.Canonical) : r.WellTyped := by
  cases h with
  | mk namesEncodable parameterEncodable files _ =>
    refine .mk namesEncodable parameterEncodable fun f hf => ?_
    obtain ⟨entry, he, rfl⟩ := List.mem_map.1 hf
    exact (files entry he).wellTyped

theorem fits (h : r.Canonical) : r.Fits := by
  cases h with
  | mk _ _ files _ =>
    intro f hf
    obtain ⟨entry, he, rfl⟩ := List.mem_map.1 hf
    exact (files entry he).fits

theorem normalize_eq (h : r.Canonical) : r.normalize = r := by
  cases h with
  | @mk names parameter files _ _ canonical named =>
    have same : files.values.map Descriptor.File.normalize = files.values := by
      rw [OrderedMap.values, List.map_map]
      exact List.map_congr_left fun entry he => (canonical entry he).normalize_eq
    rw [normalize]
    simp only [same, foldl_file named]

theorem step {f : Wire.Field} (h : r.Canonical) (stepped : r.step f = .ok r') : r'.Canonical := by
  obtain ⟨namesEncodable, parameterEncodable, files, named⟩ := h
  unfold Request.step at stepped
  split at stepped
  · obtain ⟨text, read, eq⟩ := bind_eq_ok_iff.1 stepped
    cases eq
    exact .mk (forall_mem_concat namesEncodable (Wire.encodable_of_decodeText read))
      parameterEncodable files named
  · obtain ⟨text, read, eq⟩ := bind_eq_ok_iff.1 stepped
    cases eq
    exact .mk namesEncodable (Wire.encodable_of_decodeText read) files named
  · obtain ⟨f, read, eq⟩ := bind_eq_ok_iff.1 stepped
    have canonical := Descriptor.File.canonical_of_decode read
    split at eq
    · cases eq
      exact .mk namesEncodable parameterEncodable files named
    · rename_i nameless
      cases eq
      refine .mk namesEncodable parameterEncodable
        (OrderedMap.forall_entries_insert files canonical)
        (OrderedMap.forall_entries_insert named ?_)
      cases canonical
      exact ⟨rfl, fun empty => nameless (congrArg some empty)⟩
  · cases stepped
    exact .mk namesEncodable parameterEncodable files named

end Canonical

theorem canonical_of_decode {bytes : Bytes} {r : Request} (h : decode bytes = .ok r) :
    r.Canonical :=
  (run_of_fold h).invariant_of_step Canonical (fun _ _ _ h => h.step)
    (@Canonical.mk [] [] ∅ nofun nofun nofun nofun)

theorem exists_filesToGenerate_of_decode {bytes : Bytes} {r : Request} (h : decode bytes = .ok r) :
    ∃ names, r.filesToGenerate = some names := by
  cases canonical_of_decode h
  exact ⟨_, rfl⟩

/-- Reads a request and writes it again. -/
def reencode (bytes : Bytes) : Except (DecodeError ⊕ EncodeError) Bytes := do
  let r ← (decode bytes).mapError .inl
  r.encode.mapError .inr

/-- What is canonical is written, and read from that as it was. -/
theorem Canonical.exists_encode {r : Request} (canonical : r.Canonical) :
    ∃ written, r.encode = .ok written ∧ (Addressable written → decode written = .ok r) := by
  obtain ⟨written, encoded, decodes⟩ := canonical.wellTyped.roundTrips
  rw [canonical.normalize_eq] at decodes
  exact ⟨written, encoded, decodes.complete canonical.fits⟩

/-- What was read is written, and read from that as it was. -/
theorem encode_of_decode {bytes : Bytes} {r : Request} (h : decode bytes = .ok r) :
    ∃ written, r.encode = .ok written ∧ (Addressable written → decode written = .ok r) :=
  (canonical_of_decode h).exists_encode

theorem reencode_eq_ok {bytes written : Bytes} {r : Request} (h : decode bytes = .ok r)
    (h' : r.encode = .ok written) : reencode bytes = .ok written := by
  rw [reencode, h]
  change r.encode.mapError Sum.inr = _
  rw [h']
  rfl

/-- To read and write a request is to choose the one spelling of it: what comes out is read as the
same request and comes out again, and the spellings of other requests come out otherwise. -/
theorem reencode_canonical {bytes : Bytes} {r : Request} (accepted : decode bytes = .ok r) :
    ∃ written, r.encode = .ok written ∧ reencode bytes = .ok written ∧ (Addressable written →
      decode written = .ok r ∧ reencode written = .ok written ∧
      ∀ bytes' r', decode bytes' = .ok r' → (r = r' ↔ reencode bytes = reencode bytes')) := by
  obtain ⟨written, encoded, back⟩ := encode_of_decode accepted
  have reencoded := reencode_eq_ok accepted encoded
  refine ⟨written, encoded, reencoded, fun size => ?_⟩
  have again := back size
  refine ⟨again, reencode_eq_ok again encoded, fun bytes' r' accepted' => ⟨?_, fun same => ?_⟩⟩
  · rintro rfl
    rw [reencoded, reencode_eq_ok accepted' encoded]
  · obtain ⟨written', encoded', back'⟩ := encode_of_decode accepted'
    rw [reencoded, reencode_eq_ok accepted' encoded'] at same
    cases same
    have again' := back' size
    rw [again] at again'
    cases again'
    rfl

/-- The parameter twice, around a field that no request has, tag and number of it in more bytes than
they need. -/
def roundabout : Bytes := [0x12, 0x01, 0x61, 0xC8, 0x00, 0x81, 0x00, 0x12, 0x01, 0x62]

theorem decode_roundabout : decode roundabout = .ok { parameter := some ("b" : Text) } := by
  have fields : Wire.Fields.ofBytes roundabout =
      .field ⟨2, .lengthDelimited [0x61], 1⟩ (.field ⟨9, .varint 1, 5⟩
        (.field ⟨2, .lengthDelimited [0x62], 8⟩ .done)) := by
    rw [Wire.Fields.ofBytes, ofReader_field rfl rfl, ofReader_field rfl rfl,
      ofReader_field rfl rfl]
    change Wire.Fields.field _ (.field _ (.field _ (Wire.Fields.ofReader ⟨10, []⟩))) = _
    rw [ofReader_nil]
    rfl
  have first (start : Nat) : Wire.decodeText [0x61] start = .ok "a" :=
    Wire.decodeText_eq_ok_iff.2 (Utf8.decode_eq_ok_iff.2 ⟨by decide, by decide⟩)
  have last (start : Nat) : Wire.decodeText [0x62] start = .ok "b" :=
    Wire.decodeText_eq_ok_iff.2 (Utf8.decode_eq_ok_iff.2 ⟨by decide, by decide⟩)
  rw [decode, fields]
  simp [Wire.Fields.fold, Wire.Fields.noGuard, step, first, last]

theorem reencode_canonical_roundabout :
    ∃ r, decode roundabout = .ok r ∧ reencode roundabout = .ok [0x12, 0x01, 0x62] ∧
      decode [0x12, 0x01, 0x62] = .ok r := by
  obtain ⟨written, encoded, reencoded, back⟩ := reencode_canonical decode_roundabout
  have short : encode { parameter := some ("b" : Text) } = .ok [0x12, 0x01, 0x62] := by
    decide +kernel
  rw [short] at encoded
  cases encoded
  exact ⟨_, decode_roundabout, reencoded, (back (by decide)).1⟩

end SchemaPlugin.Request
