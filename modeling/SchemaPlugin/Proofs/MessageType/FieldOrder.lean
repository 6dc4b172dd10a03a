import SchemaPlugin.Proofs.MessageType.Slots
import SchemaPlugin.Proofs.Request.Agreement
import SchemaPlugin.Proofs.Wire.ReadBack

/-!
The order of fields. Fields of different numbers may be put in any order: each of them changes a
slot of its own, so that only the order among the fields of one number counts. Where options are put
in another order they come in that order, which as a map is the same.
-/

namespace SchemaPlugin.MessageType

open Wire (DecodeError Fields Value WholeField WholeFields)
open Descriptor (fieldsAgree_refl messagesAgree_refl optionsAgree_refl partsAgree_append)

/-- A field with one of its spellings. -/
structure SpelledField where
  number : Nat
  value : Value
  bytes : Bytes
  whole : WholeField number value bytes

/-- The bytes of fields, one after the other. -/
def spelling (fields : List SpelledField) : Bytes := fields.flatMap SpelledField.bytes

/-- The same fields, those of one number in the same order. -/
def KeepsOrder (fields fields' : List SpelledField) : Prop :=
  ∀ n, fields.filter (·.number = n) = fields'.filter (·.number = n)

theorem KeepsOrder.mem {fields fields' : List SpelledField} (kept : KeepsOrder fields fields')
    {p : SpelledField} (mem : p ∈ fields') : p ∈ fields := by
  have listed : p ∈ fields'.filter (·.number = p.number) :=
    List.mem_filter.2 ⟨mem, decide_eq_true rfl⟩
  rw [← kept p.number] at listed
  exact (List.mem_filter.1 listed).1

theorem wholeFields_spelling (fields : List SpelledField) : WholeFields (spelling fields) := by
  induction fields with
  | nil => exact .nil
  | cons p fields ih => exact .field p.whole trivial ih

section Run

variable {type : MessageType} {s s' t : type.Content} {fields fields' : List SpelledField}

/-- Takes a field, if it is let through. -/
def take (type : MessageType) (s : type.Content) (p : SpelledField) :
    Except DecodeError type.Content := do
  type.guard ⟨p.number, p.value.wireType⟩ 0
  type.step s ⟨p.number, p.value, 0⟩

theorem fold_spelling_iff :
    (Fields.ofBytes (spelling fields)).fold type.guard type.step s = .ok t ↔
      fields.foldlM type.take s = .ok t := by
  induction fields generalizing s with
  | nil =>
    change Wire.Fields.fold _ _ _ (Fields.ofReader ⟨0, []⟩) = _ ↔ _
    rw [Wire.Fields.ofReader_nil]
    rfl
  | cons p fields ih =>
    change (Fields.ofBytes (p.bytes ++ spelling fields)).fold _ _ _ = _ ↔ _
    have alone (m : type.Content) : (Fields.ofBytes p.bytes).fold type.guard type.step s = .ok m ↔
        type.take s p = .ok m := by
      rw [type.steady.fold_field_iff p.whole 0, take, bind_eq_ok_iff]
      exact ⟨fun h => ⟨(), h⟩, fun ⟨_, h⟩ => h⟩
    rw [type.steady.fold_append_iff (.single p.whole trivial), List.foldlM_cons, bind_eq_ok_iff]
    simp only [alone, ih]

theorem take_local (s' : type.Content) {p : SpelledField} (h : type.take s p = .ok t) :
    ∃ t', type.take s' p = .ok t' ∧ type.Local p.number s s' t t' := by
  obtain ⟨_, guarded, stepped⟩ := bind_eq_ok_iff.1 h
  obtain ⟨t', stepped', together⟩ := step_local s' stepped
  exact ⟨t', bind_eq_ok_iff.2 ⟨_, guarded, stepped'⟩, together⟩

/-- Whether fields are taken is decided for each by itself. -/
theorem exists_run_iff : (∃ t, fields.foldlM type.take s = .ok t) ↔
    ∀ p ∈ fields, ∃ t, type.take type.blank p = .ok t := by
  induction fields generalizing s with
  | nil => simp
  | cons p fields ih =>
    rw [List.forall_mem_cons]
    constructor
    · rintro ⟨t, h⟩
      obtain ⟨m, taken, rest⟩ := bind_eq_ok_iff.1 h
      obtain ⟨m', taken', -⟩ := take_local type.blank taken
      exact ⟨⟨m', taken'⟩, ih.1 ⟨t, rest⟩⟩
    · rintro ⟨⟨m, taken⟩, rest⟩
      obtain ⟨m', taken', -⟩ := take_local s taken
      obtain ⟨t, run⟩ := (ih (s := m')).2 rest
      exact ⟨t, bind_eq_ok_iff.2 ⟨m', taken', run⟩⟩

/-- The slot of a number is left as the fields of that number alone would leave it. -/
theorem exists_run_filter {n : Nat} (same : type.SameAt n s s')
    (h : fields.foldlM type.take s = .ok t) :
    ∃ u, (fields.filter (·.number = n)).foldlM type.take s' = .ok u ∧ type.SameAt n t u := by
  induction fields generalizing s s' with
  | nil =>
    cases h
    exact ⟨s', rfl, same⟩
  | cons p fields ih =>
    obtain ⟨m, taken, rest⟩ := bind_eq_ok_iff.1 h
    obtain ⟨m', taken', together⟩ := take_local s' taken
    by_cases own : p.number = n
    · obtain ⟨u, run, last⟩ := ih (together n same).1 rest
      rw [List.filter_cons_of_pos (by simpa using own)]
      exact ⟨u, bind_eq_ok_iff.2 ⟨m', taken', run⟩, last⟩
    · rw [List.filter_cons_of_neg (by simpa using own)]
      exact ih ((together n same).2 own) rest

theorem sameAt_refl (n : Nat) (s : type.Content) : type.SameAt n s s := by
  cases type with
  | textOptions table => exact fun _ _ => rfl
  | flagOptions table => exact fun _ _ => rfl
  | _ => constructor <;> exact fun _ => rfl

/-- Only the order among the fields of one number counts. -/
theorem exists_run_keepsOrder (distinct : type.Distinct) (kept : KeepsOrder fields fields')
    (h : fields.foldlM type.take s = .ok t) :
    ∃ t', fields'.foldlM type.take s = .ok t' ∧ type.Alike t t' := by
  have taken := exists_run_iff.1 ⟨t, h⟩
  obtain ⟨t', h'⟩ := exists_run_iff.2 fun p mem => taken p (kept.mem mem)
  refine ⟨t', h', alike_of_slots distinct fun n => ?_⟩
  obtain ⟨u, run, same⟩ := exists_run_filter (sameAt_refl n s) h
  obtain ⟨u', run', same'⟩ := exists_run_filter (sameAt_refl n s) h'
  rw [kept n, run'] at run
  exact ⟨u, same, Except.ok.inj run ▸ same'⟩

end Run

/-- Equal but for the order of options, wherever they are. -/
def Agrees : (type : MessageType) → type.Content → type.Content → Prop
  | request => Request.Agrees
  | file => Descriptor.File.Agrees
  | message _ => Descriptor.Message.Agrees
  | field => Descriptor.Field.Agrees
  | textOptions _ => OrderedMap.Agrees
  | flagOptions _ => OrderedMap.Agrees
  | _ => Eq

def IsOptions : MessageType → Prop
  | textOptions _ | flagOptions _ => True
  | _ => False

/-- What becomes of a message when fields of it, or of one of its parts, are put in another order,
`place` being the type of the message that they are fields of. -/
def Matches (place type : MessageType) (a a' : type.Content) : Prop :=
  type.Agrees a a' ∧ (¬place.IsOptions → a = a')

section Agreement

variable {place type : MessageType} {s s' t : type.Content}

theorem agrees_refl (a : type.Content) : type.Agrees a a := by
  cases type with
  | request => exact Request.Agrees.refl a
  | file => exact Descriptor.File.Agrees.refl a
  | message levels => exact Descriptor.Message.Agrees.refl a
  | field => exact Descriptor.Field.Agrees.refl a
  | textOptions table => exact fun _ => rfl
  | flagOptions table => exact fun _ => rfl
  | _ => exact rfl

theorem matches_refl (a : type.Content) : Matches place type a a := ⟨agrees_refl a, fun _ => rfl⟩

theorem Alike.matches (alike : type.Alike s t) : Matches type type s t := by
  cases type with
  | textOptions table => exact ⟨alike, fun other => absurd trivial other⟩
  | flagOptions table => exact ⟨alike, fun other => absurd trivial other⟩
  | _ =>
    cases alike
    exact matches_refl _

theorem agrees_step {f : Wire.Field} (agrees : type.Agrees s s') (h : type.step s f = .ok t) :
    ∃ t', type.step s' f = .ok t' ∧ type.Agrees t t' := by
  cases type with
  | request => exact Request.Agrees.step agrees h
  | file => exact Descriptor.File.Agrees.step agrees h
  | message levels => exact Descriptor.Message.Agrees.step agrees h
  | field => exact Descriptor.Field.Agrees.step agrees h
  | textOptions table =>
    simp only [step, textOptionStep] at h ⊢
    split at h
    · exact exists_bind_ok h fun text => agrees.insert _ text
    · cases h
      exact ⟨s', rfl, agrees⟩
  | flagOptions table =>
    simp only [step, flagOptionStep] at h ⊢
    split at h
    · cases h
      exact ⟨_, rfl, agrees.insert _ _⟩
    · cases h
      exact ⟨s', rfl, agrees⟩
  | _ =>
    cases agrees
    exact ⟨t, h, rfl⟩

theorem agrees_fold {fields : Fields} (agrees : type.Agrees s s')
    (h : fields.fold type.guard type.step s = .ok t) :
    ∃ t', fields.fold type.guard type.step s' = .ok t' ∧ type.Agrees t t' := by
  induction fields generalizing s s' with
  | done =>
    cases h
    exact ⟨s', rfl, agrees⟩
  | badTag e => cases h
  | badValue tag start e =>
    obtain ⟨_, -, failed⟩ := bind_eq_ok_iff.1 h
    cases failed
  | field f rest ih =>
    obtain ⟨_, guarded, h⟩ := bind_eq_ok_iff.1 h
    obtain ⟨m, stepped, h⟩ := bind_eq_ok_iff.1 h
    obtain ⟨m', stepped', agrees⟩ := agrees_step agrees stepped
    obtain ⟨t', read, agrees⟩ := ih agrees h
    exact ⟨t', bind_eq_ok_iff.2 ⟨_, guarded, bind_eq_ok_iff.2 ⟨m', stepped', read⟩⟩, agrees⟩

theorem matches_fold {fields : Fields} (same : Matches place type s s')
    (h : fields.fold type.guard type.step s = .ok t) :
    ∃ t', fields.fold type.guard type.step s' = .ok t' ∧ Matches place type t t' := by
  by_cases exact : place.IsOptions
  · obtain ⟨t', read, agrees⟩ := agrees_fold same.1 h
    exact ⟨t', read, agrees, fun other => absurd exact other⟩
  · exact ⟨t, same.2 exact ▸ h, matches_refl t⟩

/-- A message takes from its part nothing but what the part is read as. -/
theorem matches_step_part {part : MessageType} {number start : Nat} {payload payload' : Bytes}
    (known : type.part? number = some part)
    (same : ∀ a, part.decode payload = .ok a →
      ∃ a', part.decode payload' = .ok a' ∧ Matches place part a a')
    (h : type.step s ⟨number, .lengthDelimited payload, start⟩ = .ok t) :
    ∃ t', type.step s ⟨number, .lengthDelimited payload', start⟩ = .ok t' ∧
      Matches place type t t' := by
  unfold part? at known
  split at known <;> cases known
  case h_1 =>
    exact exists_bind_ok_of_alike h same fun file file' q =>
      ⟨Request.agrees_filed (Request.Agrees.refl s) q.1, fun other => by rw [q.2 other]⟩
  case h_2 =>
    exact exists_bind_ok_of_alike h same fun m m' q =>
      ⟨.mk (partsAgree_append (messagesAgree_refl _) q.1) (optionsAgree_refl _),
        fun other => by rw [q.2 other]⟩
  case h_4 =>
    exact exists_bind_ok_of_alike h same fun options options' q =>
      ⟨.mk (messagesAgree_refl _) (.some q.1), fun other => by rw [q.2 other]⟩
  case h_5 levels =>
    exact exists_bind_ok_of_alike h same fun d d' q =>
      ⟨.mk (partsAgree_append (fieldsAgree_refl _) q.1) (messagesAgree_refl _)
        (optionsAgree_refl _), fun other => by rw [q.2 other]⟩
  case h_6 levels =>
    cases levels with
    | zero => exact ⟨t, h, matches_refl t⟩
    | succ levels =>
      exact exists_bind_ok_of_alike h same fun m m' q =>
        ⟨.mk (fieldsAgree_refl _) (partsAgree_append (messagesAgree_refl _) q.1)
          (optionsAgree_refl _), fun other => by rw [q.2 other]⟩
  case h_8 levels =>
    exact exists_bind_ok_of_alike h same fun options options' q =>
      ⟨.mk (fieldsAgree_refl _) (messagesAgree_refl _) (.some q.1), fun other => by rw [q.2 other]⟩
  case h_9 =>
    exact exists_bind_ok_of_alike h same fun options options' q =>
      ⟨.mk (.some q.1), fun other => by rw [q.2 other]⟩
  -- Enums, their values and generated files have no options: here to agree is to be equal.
  all_goals
    refine exists_bind_ok_of_alike h same fun a a' q => ?_
    cases q.1
    exact matches_refl _

/-- What bytes in between are read as decides how the message is read. -/
theorem matches_middle {front old new back : Bytes} {a : type.Content} (whole : WholeFields front)
    (wholeOld : WholeFields old) (wholeNew : WholeFields new)
    (same : ∀ s t, (Fields.ofBytes old).fold type.guard type.step s = .ok t →
      ∃ t', (Fields.ofBytes new).fold type.guard type.step s = .ok t' ∧ Matches place type t t')
    (h : type.decode (front ++ (old ++ back)) = .ok a) :
    ∃ a', type.decode (front ++ (new ++ back)) = .ok a' ∧ Matches place type a a' := by
  have steady := type.steady
  simp only [decode_eq_fold, steady.fold_append_iff whole, steady.fold_append_iff wholeOld,
    steady.fold_append_iff wholeNew] at h ⊢
  obtain ⟨s, before, t, between, after⟩ := h
  obtain ⟨t', between', same⟩ := same s t between
  obtain ⟨a', after', same⟩ := matches_fold same after
  exact ⟨a', ⟨s, before, t', between', after'⟩, same⟩

theorem matches_spelling {fields fields' : List SpelledField} (distinct : type.Distinct)
    (kept : KeepsOrder fields fields')
    (h : (Fields.ofBytes (spelling fields)).fold type.guard type.step s = .ok t) :
    ∃ t', (Fields.ofBytes (spelling fields')).fold type.guard type.step s = .ok t' ∧
      Matches type type t t' := by
  obtain ⟨t', run, alike⟩ := exists_run_keepsOrder distinct kept (fold_spelling_iff.1 h)
  exact ⟨t', fold_spelling_iff.2 run, alike.matches⟩

end Agreement

/-- The second bytes are the first ones with fields in another order, two neighbours with different
numbers being swapped, or any permuted so that those of one number keep their order. The fields are
those of a message of the type `place`: the message itself or a part of it, however deep. -/
inductive Rearranged (place : MessageType) : MessageType → Bytes → Bytes → Prop
  | swap {number number' : Nat} {value value' : Value} {front field field' : Bytes} (back : Bytes)
      (whole : WholeFields front) (first : WholeField number value field)
      (second : WholeField number' value' field') (differ : number ≠ number') :
      Rearranged place place (front ++ (field ++ (field' ++ back)))
        (front ++ (field' ++ (field ++ back)))
  | permuted {front : Bytes} {fields fields' : List SpelledField} (back : Bytes)
      (whole : WholeFields front) (kept : KeepsOrder fields fields') :
      Rearranged place place (front ++ (spelling fields ++ back))
        (front ++ (spelling fields' ++ back))
  | inside {type part : MessageType} {number : Nat} {payload payload' front field field' : Bytes}
      (back : Bytes) (whole : WholeFields front) (known : type.part? number = some part)
      (old : WholeField number (.lengthDelimited payload) field)
      (new : WholeField number (.lengthDelimited payload') field')
      (inner : Rearranged place part payload payload') :
      Rearranged place type (front ++ (field ++ back)) (front ++ (field' ++ back))

namespace Rearranged

variable {place type : MessageType} {bytes bytes' : Bytes}

theorem symm (h : Rearranged place type bytes bytes') : Rearranged place type bytes' bytes := by
  induction h with
  | swap back whole first second differ => exact .swap back whole second first differ.symm
  | permuted back whole kept => exact .permuted back whole fun n => (kept n).symm
  | inside back whole known old new _ ih => exact .inside back whole known new old ih

theorem exists_decode (distinct : place.Distinct) (h : Rearranged place type bytes bytes')
    {a : type.Content} (read : type.decode bytes = .ok a) :
    ∃ a', type.decode bytes' = .ok a' ∧ Matches place type a a' := by
  induction h with
  | @swap number number' value value' front field field' back whole first second differ =>
    let f : SpelledField := ⟨number, value, field, first⟩
    let g : SpelledField := ⟨number', value', field', second⟩
    have kept : KeepsOrder [f, g] [g, f] := by
      intro n
      by_cases own : number = n
      · have other : number' ≠ n := fun own' => differ (own.trans own'.symm)
        simp [f, g, own, other]
      · simp [List.filter_cons, f, g, own]
    have spelled (p q : SpelledField) :
        front ++ (p.bytes ++ (q.bytes ++ back)) = front ++ (spelling [p, q] ++ back) := by
      simp [spelling]
    obtain ⟨a', read', same⟩ := matches_middle whole (wholeFields_spelling _)
      (wholeFields_spelling _) (fun _ _ => matches_spelling distinct kept)
      ((congrArg place.decode (spelled f g)).symm.trans read)
    exact ⟨a', (congrArg place.decode (spelled g f)).trans read', same⟩
  | permuted back whole kept =>
    exact matches_middle whole (wholeFields_spelling _) (wholeFields_spelling _)
      (fun _ _ => matches_spelling distinct kept) read
  | @inside type part number payload payload' front field field' back whole known old new _ ih =>
    refine matches_middle whole (.single old trivial) (.single new trivial) (fun s t => ?_) read
    rw [type.steady.fold_field_iff old 0]
    rintro ⟨guarded, stepped⟩
    obtain ⟨t', stepped', same⟩ := matches_step_part known (fun a => ih) stepped
    exact ⟨t', (type.steady.fold_field_iff new 0).2 ⟨guarded, stepped'⟩, same⟩

end Rearranged

/-- Messages whose fields are put in another order, those of one number keeping theirs, are accepted
as before and read as the same; if the fields are options, as the same map. -/
theorem decode_rearranged {place type : MessageType} {bytes bytes' : Bytes}
    (distinct : place.Distinct) (h : Rearranged place type bytes bytes') :
    ((∃ a, type.decode bytes = .ok a) ↔ ∃ a', type.decode bytes' = .ok a') ∧
      ∀ a a', type.decode bytes = .ok a → type.decode bytes' = .ok a' →
        type.Agrees a a' ∧ (¬place.IsOptions → a = a') := by
  refine ⟨⟨fun ⟨a, read⟩ => ?_, fun ⟨a, read⟩ => ?_⟩, fun a a' read read' => ?_⟩
  · obtain ⟨a', read', -⟩ := h.exists_decode distinct read
    exact ⟨a', read'⟩
  · obtain ⟨a', read', -⟩ := h.symm.exists_decode distinct read
    exact ⟨a', read'⟩
  · obtain ⟨b, readb, same⟩ := h.exists_decode distinct read
    rw [read'] at readb
    cases readb
    exact same

/-- The options of a field, in the two orders. -/
theorem decode_rearranged_options :
    (flagOptions Descriptor.fieldOptions).Distinct ∧
    Rearranged (flagOptions Descriptor.fieldOptions) field
      (Encode.partField 8 (Encode.varintField 2 1 ++ Encode.varintField 3 1))
      (Encode.partField 8 (Encode.varintField 3 1 ++ Encode.varintField 2 1)) ∧
    ∃ a a',
      field.decode (Encode.partField 8 (Encode.varintField 2 1 ++ Encode.varintField 3 1)) =
        .ok a ∧
      field.decode (Encode.partField 8 (Encode.varintField 3 1 ++ Encode.varintField 2 1)) =
        .ok a' ∧
      field.Agrees a a' := by
  have option (number : Nat) (valid : Wire.Fields.ValidNumber number) :
      WholeField number (.varint 1) (Encode.varintField number 1) :=
    ⟨_, _, Wire.Fields.spelled_tag valid, .varint (Wire.Varint.spelled_ofNat (by decide)), rfl⟩
  have options (payload : Bytes) (size : Addressable payload) :
      WholeField 8 (.lengthDelimited payload) (Encode.partField 8 payload) :=
    Wire.Fields.wholeField_partField (by decide) size
  let packed := Encode.varintField 2 1
  let deprecated := Encode.varintField 3 1
  have swapped : Rearranged (flagOptions Descriptor.fieldOptions)
      (flagOptions Descriptor.fieldOptions) (packed ++ deprecated) (deprecated ++ packed) := by
    simpa using Rearranged.swap [] .nil (option 2 (by decide)) (option 3 (by decide)) (by decide)
  have inField : Rearranged (flagOptions Descriptor.fieldOptions) field
      (Encode.partField 8 (packed ++ deprecated)) (Encode.partField 8 (deprecated ++ packed)) := by
    simpa using Rearranged.inside [] .nil rfl (options _ (by decide +kernel))
      (options _ (by decide +kernel)) swapped
  have accepted : Descriptor.Field.Accepts (Encode.partField 8 (packed ++ deprecated)) :=
    .single (options _ (by decide +kernel))
      (.field (option 2 (by decide)) trivial (.single (option 3 (by decide)) trivial))
  obtain ⟨a, read⟩ := Descriptor.Field.decode_isOk_iff.2 accepted
  have known : field.part? 8 = some (flagOptions Descriptor.fieldOptions) := rfl
  have distinct := distinct_of_part? known
  have rearranged := decode_rearranged distinct inField
  obtain ⟨a', read'⟩ := rearranged.1.1 ⟨a, read⟩
  exact ⟨distinct, inField, a, a', read, read', (rearranged.2 a a' read read').1⟩

end SchemaPlugin.MessageType
