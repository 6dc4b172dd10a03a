import SchemaPlugin.Proofs.Descriptor.NormalForm
import SchemaPlugin.Proofs.Wire.ReadBack

/-!
Descriptors that are written and read: what comes back is the normal form, just if the descriptor
fits.
-/

namespace SchemaPlugin.Descriptor

open Wire (DecodeError word64)
open Wire.Fields
open Wire.Varint (signed_unsigned unsigned_eq_emod)

section Options

variable {table : List (Nat × Text)}

theorem optionOf?_eq_some {name : Text} {number : Nat} (nodup : (table.map Prod.fst).Nodup)
    (h : (number, name) ∈ table) : optionOf? table number = some name := by
  induction table with
  | nil => cases h
  | cons entry rest ih =>
    rw [List.map_cons, List.nodup_cons] at nodup
    rcases List.mem_cons.1 h with rfl | h
    · simp [optionOf?]
    · have other : entry.1 ≠ number := fun eq => nodup.1 (eq ▸ List.mem_map_of_mem h)
      have tail := ih nodup.2 h
      rw [optionOf?] at tail ⊢
      rwa [List.find?_cons_of_neg (by simpa using other)]

theorem mem_of_numberOf? {name : Text} {number : Nat} (h : numberOf? table name = some number) :
    (number, name) ∈ table := by
  obtain ⟨entry, he, rfl⟩ := Option.map_eq_some_iff.1 h
  have eq := List.find?_some he
  simp only [decide_eq_true_eq] at eq
  exact eq ▸ List.mem_of_find?_eq_some he

/-- A table gives every field number one option, and none that cannot be written. -/
structure Numbered (table : List (Nat × Text)) : Prop where
  nodup : (table.map Prod.fst).Nodup
  valid : ∀ entry ∈ table, ValidNumber entry.1

theorem numbered_fileOptions : Numbered fileOptions := ⟨by decide, by decide⟩

theorem numbered_messageOptions : Numbered messageOptions := ⟨by decide, by decide⟩

theorem numbered_fieldOptions : Numbered fieldOptions := ⟨by decide, by decide⟩

theorem foldl_insert_restrict {α : Type} (names : List Text) (options : OrderedMap α) :
    (options.entries.filter fun entry => entry.1 ∈ names).foldl
      (fun options entry => options.insert entry.1 entry.2) ∅ = options.restrict names :=
  OrderedMap.ofList_entries (options.restrict names)

theorem flagOptions_roundTrips (numbered : Numbered table) (options : OrderedMap Bool) :
    RoundTrips (Encode.optionFields table Encode.flagField options.entries)
      (decodeFlagOptions table) True (options.restrict (table.map Prod.snd)) := by
  rw [← foldl_insert_restrict]
  refine (writes_optionFields (fun entry _ number hn options => ?_) ∅).roundTrips
  have mem := mem_of_numberOf? hn
  refine ⟨_, rfl, (readsBack_varintField (numbered.valid _ mem) (fun _ => rfl)
    fun _ start => ?_).congr ?_⟩
  · simp only [optionOf?_eq_some numbered.nodup mem]
    cases entry.2 <;> rfl
  · cases entry.2 <;> simp [word64]

theorem textOptions_roundTrips (numbered : Numbered table) (options : OrderedMap Text)
    (encodable : ∀ entry ∈ options.entries, entry.2.Encodable) :
    RoundTrips (Encode.optionFields table Encode.textField options.entries)
      (decodeTextOptions table) True (options.restrict (table.map Prod.snd)) := by
  rw [← foldl_insert_restrict]
  refine (writes_optionFields (fun entry he number hn options => ?_) ∅).roundTrips
  have mem := mem_of_numberOf? hn
  refine writes_textField (fun text => options.insert entry.1 text) (numbered.valid _ mem)
    (encodable entry he) (fun _ => rfl) fun payload start => ?_
  simp only [optionOf?_eq_some numbered.nodup mem]
  rfl

end Options

theorem EnumValue.WellTyped.roundTrips {v : EnumValue} (typed : v.WellTyped) :
    RoundTrips v.encode EnumValue.decode v.Fits v.normalize := by
  cases typed with
  | @mk name number encodable =>
    let named : EnumValue := { name := some name }
    have hname : Writes noGuard EnumValue.step {} (Encode.textField 1 name) _ named :=
      writes_textField (fun name => ({ name := some name } : EnumValue)) (by decide) encodable
        (fun _ => rfl) fun _ _ => rfl
    have hnumber : Writes noGuard EnumValue.step named (Encode.numberField? 2 (some number)) _
        { named with number := some number.toSigned } :=
      writes_numberField (by decide) (fun _ => rfl) fun _ _ => by
        simp only [EnumValue.step, signed_unsigned, Number.toSigned]
    obtain ⟨front, hf, hname⟩ := hname
    obtain ⟨back, hb, hnumber⟩ := hnumber
    refine ⟨front ++ back, ?_, ((hname.append hnumber).congr ?_).decodes⟩
    · simp [EnumValue.encode, Encode.textField?, hf, hb]
    · simp [EnumValue.Fits]

theorem Enum.WellTyped.roundTrips {e : Enum} (typed : e.WellTyped) :
    RoundTrips e.encode Enum.decode e.Fits e.normalize := by
  cases typed with
  | @mk name values encodable typed =>
    let named (values : List EnumValue) : Enum := ⟨some name, some (values.map some)⟩
    have hname : Writes noGuard Enum.step {} (Encode.textField 1 name) _ (named []) :=
      writes_textField (fun name => ({ name := some name } : Enum)) (by decide) encodable
        (fun _ => rfl) fun _ _ => rfl
    have hvalues : Writes noGuard Enum.step (named [])
        (Encode.partFields 2 EnumValue.encode (values.map some)) _
        (named (values.map EnumValue.normalize)) :=
      writes_partFields named (by decide) (fun _ => rfl)
        (fun values _ _ => by simp [named, Enum.step]) (fun v hv => (typed v hv).roundTrips) []
    obtain ⟨front, hf, hname⟩ := hname
    obtain ⟨back, hb, hvalues⟩ := hvalues
    have normal : Enum.normalize (named values) = named (values.map EnumValue.normalize) := by
      simp [Enum.normalize, named]
    rw [normal]
    refine ⟨front ++ back, ?_, ((hname.append hvalues).congr ?_).decodes⟩
    · simp [Enum.encode, Encode.textField?, Encode.partFields?, hf, hb]
    · simp [Enum.Fits]

theorem Field.WellTyped.roundTrips {f : Field} (typed : f.WellTyped) :
    RoundTrips f.encode Field.decode f.Fits f.normalize := by
  cases typed with
  | @mk name number type label typeName options encodable typeEncodable =>
    let named : Field := { name := some name }
    let numbered : Field := { named with number := some number.toSigned }
    let labelled : Field := { numbered with label := some label }
    let coded : Field := { labelled with type := some type.toUnsigned }
    let whole (options : OrderedMap Bool) : Field :=
      { coded with typeName, options := some options }
    have hname : Writes noGuard Field.step {} (Encode.textField 1 name) _ named :=
      writes_textField (fun name => ({ name := some name } : Field)) (by decide) encodable
        (fun _ => rfl) fun _ _ => rfl
    have hnumber : Writes noGuard Field.step named (Encode.numberField? 3 (some number)) _
        numbered :=
      writes_numberField (by decide) (fun _ => rfl) fun _ _ => by
        simp only [Field.step, signed_unsigned, Number.toSigned, numbered]
    have hlabel : Writes noGuard Field.step numbered
        (Encode.numberField? 4 (some (.int label.number))) _ labelled :=
      writes_numberField (by decide) (fun _ => rfl) fun _ _ => by cases label <;> rfl
    have htype : Writes noGuard Field.step labelled (Encode.numberField? 5 (some type)) _ coded :=
      writes_numberField (by decide) (fun _ => rfl) fun small _ => by
        simp only [Field.step, unsigned_eq_emod small, Number.toUnsigned, coded]
    have htypeName : Writes noGuard Field.step coded (textIfAny 6 typeName) _ (whole ∅) :=
      writes_textIfAny (fun typeName => { coded with typeName }) (by decide) typeEncodable
        (fun _ => rfl) fun _ _ => rfl
    have hoptions : Writes noGuard Field.step (whole ∅)
        (Encode.optionsField 8 fieldOptions Encode.flagField (some options)) _
        (whole (options.restrict (fieldOptions.map Prod.snd))) :=
      writes_optionsField whole (by decide) (fun _ => rfl) (fun _ _ => rfl)
        (flagOptions_roundTrips numbered_fieldOptions options)
    obtain ⟨b₁, h₁, hname⟩ := hname
    obtain ⟨b₂, h₂, hnumber⟩ := hnumber
    obtain ⟨b₃, h₃, hlabel⟩ := hlabel
    obtain ⟨b₄, h₄, htype⟩ := htype
    obtain ⟨b₅, h₅, htypeName⟩ := htypeName
    obtain ⟨b₆, h₆, hoptions⟩ := hoptions
    have small : (label.number : Int) < word64 := by cases label <;> decide
    refine ⟨b₁ ++ b₂ ++ b₃ ++ b₄ ++ b₅ ++ b₆, ?_, ((((((hname.append hnumber).append hlabel).append
      htype).append htypeName).append hoptions).congr ?_).decodes⟩
    · cases typeName with
      | none =>
        cases h₅
        simp [Field.encode, Encode.textField?, h₁, h₂, h₃, h₄, h₆]
      | some =>
        rw [textIfAny] at h₅
        simp [Field.encode, Encode.textField?, h₁, h₂, h₃, h₄, h₅, h₆]
    · simp [Field.Fits, Number.value, small]

namespace Message

theorem writes_nestedFields {levels : Nat} {messages : List Message}
    (trips : ∀ m ∈ messages, ∀ levels,
      RoundTrips m.encode (decode levels) (m.Fits ∧ m.levels ≤ levels + 1) m.normalize)
    (put : List Message → Message)
    (stepped : ∀ ms payload start, step (decodeNested levels) (put ms)
      ⟨3, .lengthDelimited payload, start⟩ =
        decodeNested levels payload >>= fun m => .ok (put (ms ++ [m]))) :
    Writes (guard levels) (step (decodeNested levels)) (put []) (nestedFields (messages.map some))
      (∀ m ∈ messages, m.Fits ∧ m.levels ≤ levels) (put (messages.map normalize)) := by
  rw [nestedFields_eq]
  cases levels with
  | zero =>
    -- No message has fewer levels than one, so that none fits where the guard refuses all.
    refine writes_refusedFields put (by decide) (fun start => ⟨_, rfl⟩) (fun m hm => ?_)
      (fun m h => ?_) []
    · obtain ⟨bytes, encoded, _⟩ := trips m hm 0
      exact ⟨bytes, encoded⟩
    · exact absurd h.2 (Nat.not_le_of_lt m.levels_pos)
  | succ levels =>
    exact writes_partFields put (by decide) (fun start => guard_succ levels _ start) stepped
      (fun m hm => trips m hm levels) []

theorem WellTyped.roundTrips {m : Message} (typed : m.WellTyped) (levels : Nat) :
    RoundTrips m.encode (decode levels) (m.Fits ∧ m.levels ≤ levels + 1) m.normalize := by
  induction typed generalizing levels with
  | @mk name fields messages enums options encodable fieldsTyped messagesTyped enumsTyped ih =>
    let whole (fields : List Field) (messages : List Message) (enums : List Enum)
        (options : OrderedMap Bool) : Message :=
      ⟨some name, some (fields.map some), some (messages.map some), some (enums.map some),
        some options⟩
    let fields' := fields.map Field.normalize
    let messages' := messages.map normalize
    let enums' := enums.map Enum.normalize
    let step := step (decodeNested levels)
    have hname : Writes (guard levels) step {} (Encode.textField 1 name) _ (whole [] [] [] ∅) :=
      writes_textField (fun name => ({ name := some name } : Message)) (by decide) encodable
        (fun _ => guard_of_number_ne levels _ (by decide)) fun _ _ => rfl
    have hfields : Writes (guard levels) step (whole [] [] [] ∅)
        (Encode.partFields 2 Field.encode (fields.map some)) _ (whole fields' [] [] ∅) :=
      writes_partFields (fun fields => whole fields [] [] ∅) (by decide)
        (fun _ => guard_of_number_ne levels _ (by decide))
        (fun _ _ _ => by simp [step, whole, Message.step])
        (fun f hf => (fieldsTyped f hf).roundTrips) []
    have hmessages : Writes (guard levels) step (whole fields' [] [] ∅)
        (nestedFields (messages.map some)) _ (whole fields' messages' [] ∅) :=
      writes_nestedFields ih (fun messages => whole fields' messages [] ∅)
        fun _ _ _ => by simp [whole, Message.step]
    have henums : Writes (guard levels) step (whole fields' messages' [] ∅)
        (Encode.partFields 4 Enum.encode (enums.map some)) _ (whole fields' messages' enums' ∅) :=
      writes_partFields (fun enums => whole fields' messages' enums ∅) (by decide)
        (fun _ => guard_of_number_ne levels _ (by decide))
        (fun _ _ _ => by simp [step, whole, Message.step])
        (fun e he => (enumsTyped e he).roundTrips) []
    have hoptions : Writes (guard levels) step (whole fields' messages' enums' ∅)
        (Encode.optionsField 7 messageOptions Encode.flagField (some options)) _
        (whole fields' messages' enums' (options.restrict (messageOptions.map Prod.snd))) :=
      writes_optionsField (whole fields' messages' enums') (by decide)
        (fun _ => guard_of_number_ne levels _ (by decide)) (fun _ _ => rfl)
        (flagOptions_roundTrips numbered_messageOptions options)
    obtain ⟨b₁, h₁, hname⟩ := hname
    obtain ⟨b₂, h₂, hfields⟩ := hfields
    obtain ⟨b₃, h₃, hmessages⟩ := hmessages
    obtain ⟨b₄, h₄, henums⟩ := henums
    obtain ⟨b₅, h₅, hoptions⟩ := hoptions
    have normal : normalize (whole fields messages enums options) =
        whole fields' messages' enums' (options.restrict (messageOptions.map Prod.snd)) := by
      simp [whole, normalize, normalizeAll_map_some, known, fields', messages', enums']
    rw [normal]
    refine ⟨b₁ ++ b₂ ++ b₃ ++ b₄ ++ b₅, ?_, ?_⟩
    · simp [Message.encode, Encode.textField?, Encode.partFields?, h₁, h₂, h₃, h₄, h₅]
    · rw [decode_eq]
      refine (((((hname.append hfields).append hmessages).append henums).append hoptions).congr
        ?_).decodes
      rw [fits_iff, levels_le_succ_iff]
      constructor
      · rintro ⟨⟨⟨⟨-, hf⟩, hm⟩, he⟩, -⟩
        exact ⟨⟨hf, fun m h => (hm m h).1, he⟩, fun m h => (hm m h).2⟩
      · rintro ⟨⟨hf, hm, he⟩, depth⟩
        exact ⟨⟨⟨⟨trivial, hf⟩, fun m h => ⟨hm m h, depth m h⟩⟩, he⟩, trivial⟩

end Message

theorem File.WellTyped.roundTrips {f : File} (typed : f.WellTyped) :
    RoundTrips f.encode File.decode f.Fits f.normalize := by
  cases typed with
  | @mk name package dependencies messages enums options encodable packageEncodable
      dependenciesEncodable messagesTyped enumsTyped optionsEncodable =>
    let whole (package : Option Text) (dependencies : List Text) (messages : List Message)
        (enums : List Enum) (options : OrderedMap Text) : File :=
      ⟨some name, package, some dependencies, some (messages.map some), some (enums.map some),
        some options⟩
    let messages' := messages.map Message.normalize
    let enums' := enums.map Enum.normalize
    have hname : Writes noGuard File.step {} (Encode.textField 1 name) _
        (whole none [] [] [] ∅) :=
      writes_textField (fun name => ({ name := some name } : File)) (by decide) encodable
        (fun _ => rfl) fun _ _ => rfl
    have hpackage : Writes noGuard File.step (whole none [] [] [] ∅) (textIfAny 2 package) _
        (whole package [] [] [] ∅) :=
      writes_textIfAny (fun package => whole package [] [] [] ∅) (by decide) packageEncodable
        (fun _ => rfl) fun _ _ => rfl
    have hdependencies : Writes noGuard File.step (whole package [] [] [] ∅)
        (Encode.textFields 3 dependencies) _ (whole package dependencies [] [] ∅) :=
      writes_textFields (fun dependencies => whole package dependencies [] [] ∅) (by decide)
        (fun _ => rfl) (fun _ _ _ => rfl) dependenciesEncodable []
    have hmessages : Writes noGuard File.step (whole package dependencies [] [] ∅)
        (Encode.partFields 4 Message.encode (messages.map some)) _
        (whole package dependencies messages' [] ∅) :=
      writes_partFields (fun messages => whole package dependencies messages [] ∅) (by decide)
        (fun _ => rfl) (fun _ _ _ => by simp [whole, File.step])
        (fun m hm => (messagesTyped m hm).roundTrips (maxNesting - 1)) []
    have henums : Writes noGuard File.step (whole package dependencies messages' [] ∅)
        (Encode.partFields 5 Enum.encode (enums.map some)) _
        (whole package dependencies messages' enums' ∅) :=
      writes_partFields (fun enums => whole package dependencies messages' enums ∅) (by decide)
        (fun _ => rfl) (fun _ _ _ => by simp [whole, File.step])
        (fun e he => (enumsTyped e he).roundTrips) []
    have hoptions : Writes noGuard File.step (whole package dependencies messages' enums' ∅)
        (Encode.optionsField 7 fileOptions Encode.textField (some options)) _
        (whole package dependencies messages' enums'
          (options.restrict (fileOptions.map Prod.snd))) :=
      writes_optionsField (whole package dependencies messages' enums') (by decide)
        (fun _ => rfl) (fun _ _ => rfl)
        (textOptions_roundTrips numbered_fileOptions options optionsEncodable)
    obtain ⟨b₁, h₁, hname⟩ := hname
    obtain ⟨b₂, h₂, hpackage⟩ := hpackage
    obtain ⟨b₃, h₃, hdependencies⟩ := hdependencies
    obtain ⟨b₄, h₄, hmessages⟩ := hmessages
    obtain ⟨b₅, h₅, henums⟩ := henums
    obtain ⟨b₆, h₆, hoptions⟩ := hoptions
    have normal : File.normalize (whole package dependencies messages enums options) =
        whole package dependencies messages' enums'
          (options.restrict (fileOptions.map Prod.snd)) := by
      simp [whole, File.normalize, known, messages', enums']
    rw [normal]
    refine ⟨b₁ ++ b₂ ++ b₃ ++ b₄ ++ b₅ ++ b₆, ?_, ((((((hname.append hpackage).append
      hdependencies).append hmessages).append henums).append hoptions).congr ?_).decodes⟩
    · cases package with
      | none =>
        cases h₂
        simp [File.encode, Encode.textField?, Encode.textFields?, Encode.partFields?, h₁, h₃, h₄,
          h₅, h₆]
      | some =>
        rw [textIfAny] at h₂
        simp [File.encode, Encode.textField?, Encode.textFields?, Encode.partFields?, h₁, h₂, h₃,
          h₄, h₅, h₆]
    · simp [File.Fits, maxNesting]

end SchemaPlugin.Descriptor
