import SchemaPlugin.Proofs.Descriptor.NormalForm
import SchemaPlugin.Proofs.Wire.FieldRuns

/-!
What descriptors read from bytes look like: no part of them is null, numbers lie in the range that
their field is read with, and all options are known. Such a descriptor is its own normal form, and
every step of reading gives such a descriptor again.
-/

namespace SchemaPlugin.Descriptor

open Wire (DecodeError Value decodeText encodable_of_decodeText word64)
open Wire.Fields (run_of_fold)
open Wire.Varint (signed)

theorem signed_signed (i : Int) : signed (signed i) = signed i := by
  simp only [signed, word64]
  split_ifs <;> omega

theorem lt_word64_of_signed {n : Int} (h : signed n = n) : n < word64 := by
  simp only [signed, word64] at *
  split_ifs at h <;> omega

theorem varint_lt {n number : Nat} {bytes : Bytes}
    (whole : Wire.WholeField number (.varint n) bytes) : n < word64 := by
  obtain ⟨_, _, _, spelled, _⟩ := whole
  cases spelled with
  | varint h => exact h.2.2

section Options

variable {table : List (Nat × Text)} {bytes : Bytes}

theorem mem_names_of_optionOf? {number : Nat} {name : Text}
    (h : optionOf? table number = some name) : name ∈ table.map Prod.snd := by
  obtain ⟨entry, he, rfl⟩ := Option.map_eq_some_iff.1 h
  exact List.mem_map_of_mem (List.mem_of_find?_eq_some he)

theorem restrict_of_decodeFlagOptions {options : OrderedMap Bool}
    (h : decodeFlagOptions table bytes = .ok options) :
    options.restrict (table.map Prod.snd) = options := by
  rw [OrderedMap.restrict_eq_self_iff]
  refine (run_of_fold h).invariant_of_step
    (fun options => ∀ key ∈ options.keys, key ∈ table.map Prod.snd) ?_ nofun
  intro options options' f known stepped
  split at stepped
  · rename_i named _
    cases stepped
    exact OrderedMap.forall_keys_insert known (mem_names_of_optionOf? named)
  · cases stepped
    exact known

theorem of_decodeTextOptions {options : OrderedMap Text}
    (h : decodeTextOptions table bytes = .ok options) :
    options.restrict (table.map Prod.snd) = options ∧
      ∀ entry ∈ options.entries, entry.2.Encodable := by
  rw [OrderedMap.restrict_eq_self_iff]
  refine (run_of_fold h).invariant_of_step
    (fun options => (∀ key ∈ options.keys, key ∈ table.map Prod.snd) ∧
      ∀ entry ∈ options.entries, entry.2.Encodable) ?_ ⟨nofun, nofun⟩
  intro options options' f ⟨known, encodable⟩ stepped
  split at stepped
  · rename_i named _
    obtain ⟨text, read, eq⟩ := bind_eq_ok_iff.1 stepped
    cases eq
    exact ⟨OrderedMap.forall_keys_insert known (mem_names_of_optionOf? named),
      OrderedMap.forall_entries_insert encodable (encodable_of_decodeText read)⟩
  · cases stepped
    exact ⟨known, encodable⟩

end Options

namespace EnumValue

inductive Canonical : EnumValue → Prop
  | mk {name : Text} {n : Int} (encodable : name.Encodable) (number : signed n = n) :
      Canonical ⟨some name, some (.int n)⟩

namespace Canonical

variable {v v' : EnumValue}

theorem wellTyped (h : v.Canonical) : v.WellTyped :=
  let .mk encodable _ := h
  .mk encodable

theorem fits (h : v.Canonical) : v.Fits := by
  rintro _ eq
  cases h with
  | mk _ number =>
    cases eq
    exact lt_word64_of_signed number

theorem normalize_eq (h : v.Canonical) : v.normalize = v := by
  cases h with
  | mk _ number => simp [normalize, Number.toSigned, Number.value, number]

theorem step {f : Wire.Field} (h : v.Canonical) (stepped : v.step f = .ok v') : v'.Canonical := by
  obtain ⟨encodable, number⟩ := h
  unfold EnumValue.step at stepped
  split at stepped
  · obtain ⟨text, read, eq⟩ := bind_eq_ok_iff.1 stepped
    cases eq
    exact .mk (encodable_of_decodeText read) number
  · cases stepped
    exact .mk encodable (signed_signed _)
  · cases stepped
    exact .mk encodable number

end Canonical

theorem canonical_of_decode {bytes : Bytes} {v : EnumValue} (h : decode bytes = .ok v) :
    v.Canonical :=
  (run_of_fold h).invariant_of_step Canonical (fun _ _ _ h => h.step) (.mk (by decide) rfl)

end EnumValue

namespace Enum

inductive Canonical : Enum → Prop
  | mk {name : Text} {values : List EnumValue} (encodable : name.Encodable)
      (valuesCanonical : ∀ v ∈ values, v.Canonical) : Canonical ⟨some name, some (values.map some)⟩

namespace Canonical

variable {e e' : Enum}

theorem wellTyped (h : e.Canonical) : e.WellTyped :=
  let .mk encodable values := h
  .mk encodable fun v hv => (values v hv).wellTyped

theorem fits (h : e.Canonical) : e.Fits := by
  cases h with
  | mk _ values => exact each_map_some.2 fun v hv => (values v hv).fits

theorem normalize_eq (h : e.Canonical) : e.normalize = e := by
  cases h with
  | mk _ values =>
    simp [normalize, List.map_congr_left fun v hv => (values v hv).normalize_eq]

theorem step {f : Wire.Field} (h : e.Canonical) (stepped : e.step f = .ok e') : e'.Canonical := by
  obtain ⟨encodable, values⟩ := h
  unfold Enum.step at stepped
  split at stepped
  · obtain ⟨text, read, eq⟩ := bind_eq_ok_iff.1 stepped
    cases eq
    exact .mk (encodable_of_decodeText read) values
  · obtain ⟨v, read, eq⟩ := bind_eq_ok_iff.1 stepped
    cases eq
    rw [append_map_some]
    exact .mk encodable (forall_mem_concat values (EnumValue.canonical_of_decode read))
  · cases stepped
    exact .mk encodable values

end Canonical

theorem canonical_of_decode {bytes : Bytes} {e : Enum} (h : decode bytes = .ok e) : e.Canonical :=
  (run_of_fold h).invariant_of_step Canonical (fun _ _ _ h => h.step)
    (@Canonical.mk [] [] (by decide) nofun)

end Enum

namespace Field

inductive Canonical : Field → Prop
  | mk {name : Text} {n code : Int} {label : Label} {typeName : Option Text}
      {options : OrderedMap Bool} (encodable : name.Encodable) (number : signed n = n)
      (type : code % word64 = code) (typeEncodable : ∀ t, typeName = some t → t.Encodable)
      (known : options.restrict (fieldOptions.map Prod.snd) = options) :
      Canonical ⟨some name, some (.int n), some label, some (.int code), typeName, some options⟩

namespace Canonical

variable {f f' : Field}

theorem wellTyped (h : f.Canonical) : f.WellTyped :=
  let .mk encodable _ _ typeEncodable _ := h
  .mk encodable typeEncodable

theorem fits (h : f.Canonical) : f.Fits := by
  cases h with
  | mk _ number type _ _ =>
    refine ⟨?_, ?_⟩ <;> rintro _ ⟨⟩
    · exact lt_word64_of_signed number
    · rw [Number.value, ← type]
      exact Int.emod_lt_of_pos _ (by decide)

theorem normalize_eq (h : f.Canonical) : f.normalize = f := by
  cases h with
  | mk _ number type _ known =>
    simp [normalize, Number.toSigned, Number.toUnsigned, Number.value, Descriptor.known, number,
      type, known]

theorem step {field : Wire.Field} (small : ∀ n, field.value = .varint n → n < word64)
    (h : f.Canonical) (stepped : f.step field = .ok f') : f'.Canonical := by
  obtain ⟨encodable, number, type, typeEncodable, known⟩ := h
  unfold Field.step at stepped
  split at stepped
  · obtain ⟨text, read, eq⟩ := bind_eq_ok_iff.1 stepped
    cases eq
    exact .mk (encodable_of_decodeText read) number type typeEncodable known
  · cases stepped
    exact .mk encodable (signed_signed _) type typeEncodable known
  · split at stepped
    · cases stepped
      exact .mk encodable number type typeEncodable known
    · cases stepped
  · rename_i n _ value
    cases stepped
    refine .mk encodable number (Int.emod_eq_of_lt (Int.natCast_nonneg n) ?_) typeEncodable known
    exact Int.ofNat_lt.2 (small n value)
  · obtain ⟨text, read, eq⟩ := bind_eq_ok_iff.1 stepped
    cases eq
    refine .mk encodable number type (fun t eq => ?_) known
    cases eq
    exact encodable_of_decodeText read
  · obtain ⟨options, read, eq⟩ := bind_eq_ok_iff.1 stepped
    cases eq
    exact .mk encodable number type typeEncodable (restrict_of_decodeFlagOptions read)
  · cases stepped
    exact .mk encodable number type typeEncodable known

end Canonical

theorem canonical_of_decode {bytes : Bytes} {f : Field} (h : decode bytes = .ok f) : f.Canonical :=
  (run_of_fold h).invariant Canonical
    (fun _ _ _ _ _ _ whole _ h stepped =>
      h.step (fun _ eq => by cases eq; exact varint_lt whole) stepped)
    (.mk (by decide) rfl rfl nofun rfl)

end Field

namespace Message

/-- Canonical, with no more than some number of levels of messages. -/
inductive Canonical : Nat → Message → Prop
  | mk {levels : Nat} {name : Text} {fields : List Field} {messages : List Message}
      {enums : List Enum} {options : OrderedMap Bool} (encodable : name.Encodable)
      (fieldsCanonical : ∀ f ∈ fields, f.Canonical)
      (messagesCanonical : ∀ m ∈ messages, Canonical levels m)
      (enumsCanonical : ∀ e ∈ enums, e.Canonical)
      (known : options.restrict (messageOptions.map Prod.snd) = options) :
      Canonical (levels + 1) ⟨some name, some (fields.map some), some (messages.map some),
        some (enums.map some), some options⟩

namespace Canonical

variable {levels : Nat} {m m' : Message}

theorem wellTyped (h : Canonical levels m) : m.WellTyped := by
  induction h with
  | mk encodable fields _ enums _ ih =>
    exact .mk encodable (fun f hf => (fields f hf).wellTyped) ih
      fun e he => (enums e he).wellTyped

theorem fits (h : Canonical levels m) : m.Fits := by
  induction h with
  | mk _ fields _ enums _ ih =>
    exact fits_iff.2 ⟨fun f hf => (fields f hf).fits, ih, fun e he => (enums e he).fits⟩

theorem levels_le (h : Canonical levels m) : m.levels ≤ levels := by
  induction h with
  | mk _ _ _ _ _ ih => exact levels_le_succ_iff.2 ih

theorem normalize_eq (h : Canonical levels m) : m.normalize = m := by
  induction h with
  | mk _ fields _ enums known ih =>
    simp [normalize, normalizeAll_map_some, Descriptor.known, known, List.map_congr_left ih,
      List.map_congr_left fun f hf => (fields f hf).normalize_eq,
      List.map_congr_left fun e he => (enums e he).normalize_eq]

theorem step {f : Wire.Field} {start : Nat}
    (nested : ∀ payload m, 0 < levels → decodeNested levels payload = .ok m → Canonical levels m)
    (guarded : guard levels f.tag start = .ok ()) (h : Canonical (levels + 1) m)
    (stepped : Message.step (decodeNested levels) m f = .ok m') : Canonical (levels + 1) m' := by
  obtain ⟨encodable, fields, messages, enums, known⟩ := h
  unfold Message.step at stepped
  split at stepped
  · obtain ⟨text, read, eq⟩ := bind_eq_ok_iff.1 stepped
    cases eq
    exact .mk (encodable_of_decodeText read) fields messages enums known
  · obtain ⟨f, read, eq⟩ := bind_eq_ok_iff.1 stepped
    cases eq
    rw [append_map_some]
    exact .mk encodable (forall_mem_concat fields (Field.canonical_of_decode read)) messages enums
      known
  · rename_i payload number value
    obtain ⟨m, read, eq⟩ := bind_eq_ok_iff.1 stepped
    cases eq
    -- The guard has seen the tag, so that a level is left for the message.
    have some : 0 < levels := by
      refine Nat.pos_of_ne_zero fun zero => ?_
      rw [guard, if_pos ⟨zero, by rw [Wire.Field.tag, number, value]; rfl⟩] at guarded
      cases guarded
    rw [append_map_some]
    exact .mk encodable fields (forall_mem_concat messages (nested payload m some read)) enums known
  · obtain ⟨e, read, eq⟩ := bind_eq_ok_iff.1 stepped
    cases eq
    rw [append_map_some]
    exact .mk encodable fields messages (forall_mem_concat enums (Enum.canonical_of_decode read))
      known
  · obtain ⟨options, read, eq⟩ := bind_eq_ok_iff.1 stepped
    cases eq
    exact .mk encodable fields messages enums (restrict_of_decodeFlagOptions read)
  · cases stepped
    exact .mk encodable fields messages enums known

end Canonical

theorem canonical_default (levels : Nat) : Canonical (levels + 1) {} :=
  @Canonical.mk levels [] [] [] [] ∅ (by decide) (List.forall_mem_nil _) (List.forall_mem_nil _)
    (List.forall_mem_nil _) rfl

theorem canonical_of_decode {levels : Nat} {bytes : Bytes} {m : Message}
    (h : decode levels bytes = .ok m) : Canonical (levels + 1) m := by
  induction levels generalizing bytes m with
  | zero =>
    rw [decode_eq] at h
    refine (run_of_fold h).invariant (Canonical 1) ?_ (canonical_default 0)
    intro m m' number value start _ _ guarded canonical stepped
    exact canonical.step (f := ⟨number, value, start⟩) nofun guarded stepped
  | succ levels ih =>
    rw [decode_eq] at h
    refine (run_of_fold h).invariant (Canonical (levels + 2)) ?_ (canonical_default (levels + 1))
    intro m m' number value start _ _ guarded canonical stepped
    exact canonical.step (f := ⟨number, value, start⟩) (fun _ _ _ => ih) guarded stepped

end Message

namespace File

inductive Canonical : File → Prop
  | mk {name : Text} {package : Option Text} {dependencies : List Text} {messages : List Message}
      {enums : List Enum} {options : OrderedMap Text} (encodable : name.Encodable)
      (packageEncodable : ∀ t, package = some t → t.Encodable)
      (dependenciesEncodable : ∀ t ∈ dependencies, t.Encodable)
      (messagesCanonical : ∀ m ∈ messages, m.Canonical maxNesting)
      (enumsCanonical : ∀ e ∈ enums, e.Canonical)
      (known : options.restrict (fileOptions.map Prod.snd) = options)
      (optionsEncodable : ∀ entry ∈ options.entries, entry.2.Encodable) :
      Canonical ⟨some name, package, some dependencies, some (messages.map some),
        some (enums.map some), some options⟩

namespace Canonical

variable {f f' : File}

theorem wellTyped (h : f.Canonical) : f.WellTyped := by
  cases h with
  | mk encodable packageEncodable dependenciesEncodable messages enums _ optionsEncodable =>
    exact .mk encodable packageEncodable dependenciesEncodable
      (fun m hm => (messages m hm).wellTyped) (fun e he => (enums e he).wellTyped) optionsEncodable

theorem fits (h : f.Canonical) : f.Fits := by
  cases h with
  | mk _ _ _ messages enums _ _ =>
    exact ⟨each_map_some.2 fun m hm => ⟨(messages m hm).fits, (messages m hm).levels_le⟩,
      each_map_some.2 fun e he => (enums e he).fits⟩

theorem normalize_eq (h : f.Canonical) : f.normalize = f := by
  cases h with
  | mk _ _ _ messages enums known _ =>
    simp [normalize, Descriptor.known, known,
      List.map_congr_left fun m hm => (messages m hm).normalize_eq,
      List.map_congr_left fun e he => (enums e he).normalize_eq]

theorem step {field : Wire.Field} (h : f.Canonical) (stepped : f.step field = .ok f') :
    f'.Canonical := by
  obtain ⟨encodable, packageEncodable, dependenciesEncodable, messages, enums, known,
    optionsEncodable⟩ := h
  unfold File.step at stepped
  split at stepped
  · obtain ⟨text, read, eq⟩ := bind_eq_ok_iff.1 stepped
    cases eq
    exact .mk (encodable_of_decodeText read) packageEncodable dependenciesEncodable messages enums
      known optionsEncodable
  · obtain ⟨text, read, eq⟩ := bind_eq_ok_iff.1 stepped
    cases eq
    refine .mk encodable (fun t eq => ?_) dependenciesEncodable messages enums known
      optionsEncodable
    cases eq
    exact encodable_of_decodeText read
  · obtain ⟨text, read, eq⟩ := bind_eq_ok_iff.1 stepped
    cases eq
    exact .mk encodable packageEncodable
      (forall_mem_concat dependenciesEncodable (encodable_of_decodeText read)) messages enums known
      optionsEncodable
  · obtain ⟨m, read, eq⟩ := bind_eq_ok_iff.1 stepped
    cases eq
    rw [append_map_some]
    exact .mk encodable packageEncodable dependenciesEncodable
      (forall_mem_concat messages (Message.canonical_of_decode read)) enums known optionsEncodable
  · obtain ⟨e, read, eq⟩ := bind_eq_ok_iff.1 stepped
    cases eq
    rw [append_map_some]
    exact .mk encodable packageEncodable dependenciesEncodable messages
      (forall_mem_concat enums (Enum.canonical_of_decode read)) known optionsEncodable
  · obtain ⟨options, read, eq⟩ := bind_eq_ok_iff.1 stepped
    cases eq
    obtain ⟨known, optionsEncodable⟩ := of_decodeTextOptions read
    exact .mk encodable packageEncodable dependenciesEncodable messages enums known optionsEncodable
  · cases stepped
    exact .mk encodable packageEncodable dependenciesEncodable messages enums known optionsEncodable

end Canonical

theorem canonical_of_decode {bytes : Bytes} {f : File} (h : decode bytes = .ok f) : f.Canonical :=
  (run_of_fold h).invariant_of_step Canonical (fun _ _ _ h => h.step)
    (@Canonical.mk [] none [] [] [] ∅ (by decide) nofun nofun nofun nofun rfl nofun)

end File

end SchemaPlugin.Descriptor
