import SchemaPlugin.Proofs.Wire.FieldRuns

/-!
Whole fields in front of other bytes. No spelling of a field is the beginning of another's, so bytes
can be divided into a field and what follows it in one way only. Reading whole fields fails, or
leads to a state from which the other bytes are read as if they stood alone: the place of a field in
its buffer shows in errors only.
-/

namespace SchemaPlugin.Wire

section WholeField

variable {number number' : Nat} {value value' : Value} {bytes bytes' rest rest' : Bytes}

/-- A whole field is read wherever it stands and whatever follows it. -/
theorem WholeField.reads (whole : WholeField number value bytes) (offset : Nat) (rest : Bytes) :
    ∃ mid, Reader.tag ⟨offset, bytes ++ rest⟩ = .ok (⟨number, value.wireType⟩, mid) ∧
      mid.value value.wireType = .ok (value, ⟨offset + bytes.length, rest⟩) := by
  obtain ⟨front, back, spelled, spelled', rfl⟩ := whole
  refine ⟨⟨offset + front.length, back ++ rest⟩, ?_, ?_⟩
  · exact Reader.tag_eq_ok_iff.2 ⟨front, spelled, List.append_assoc _ _ _, rfl⟩
  · refine Reader.value_eq_ok_iff.2 ⟨rfl, back, spelled', rfl, ?_⟩
    rw [List.length_append]
    exact (Nat.add_assoc _ _ _).symm

/-- There is one way to take a whole field off some bytes. -/
theorem WholeField.unique (whole : WholeField number value bytes)
    (whole' : WholeField number' value' bytes') (same : bytes ++ rest = bytes' ++ rest') :
    number = number' ∧ value = value' ∧ bytes = bytes' ∧ rest = rest' := by
  obtain ⟨mid, tag, read⟩ := whole.reads 0 rest
  obtain ⟨mid', tag', read'⟩ := whole'.reads 0 rest'
  rw [same, tag'] at tag
  obtain ⟨⟨rfl, sameType⟩, rfl⟩ :
      (number' = number ∧ value'.wireType = value.wireType) ∧ mid' = mid := by simpa using tag
  rw [← sameType, read'] at read
  obtain ⟨rfl, -, rfl⟩ :
      value' = value ∧ bytes'.length = bytes.length ∧ rest' = rest := by simpa using read
  exact ⟨rfl, rfl, List.append_cancel_right same, rfl⟩

/-- A tag and a value that are read are a whole field. -/
theorem WholeField.of_reads {r mid next : Reader} {t : Tag} (tag : r.tag = .ok (t, mid))
    (read : mid.value t.wireType = .ok (value, next)) :
    value.wireType = t.wireType ∧ ∃ bytes, WholeField t.number value bytes ∧
      r.Passes bytes next := by
  obtain ⟨front, spelled, passes⟩ := Reader.tag_eq_ok_iff.1 tag
  obtain ⟨type, back, spelled', passes'⟩ := Reader.value_eq_ok_iff.1 read
  exact ⟨type, front ++ back, ⟨front, back, by rwa [type], spelled', rfl⟩, passes.trans passes'⟩

theorem WholeField.ne_nil (whole : WholeField number value bytes) : bytes ≠ [] := by
  obtain ⟨front, back, ⟨-, spelled⟩, -, rfl⟩ := whole
  exact List.append_ne_nil_of_left_ne_nil spelled.ne_nil back

end WholeField

/-- Any whole fields, one after the other. -/
def WholeFields : Bytes → Prop := Sequence fun _ _ => True

namespace Fields

variable {σ : Type} {guard : Tag → Nat → Except DecodeError Unit}
  {step : σ → Field → Except DecodeError σ} {s t : σ} {front rest bytes : Bytes}

theorem fold_field {number start : Nat} {value : Value} {others : Fields} :
    fold guard step s (.field ⟨number, value, start⟩ others) =
      guard ⟨number, value.wireType⟩ start >>= fun _ =>
        step s ⟨number, value, start⟩ >>= fun mid => fold guard step mid others := rfl

theorem wholeFields_of_run (run : Run guard step s bytes t) : WholeFields bytes := by
  induction run with
  | done => exact .nil
  | field whole _ _ _ ih => exact .field whole trivial ih

variable (guard step) in
/-- Reading whole fields fails, whatever follows, or leads to a state from which reading goes on. -/
theorem fold_append_cases (whole : WholeFields front) (s : σ) (offset : Nat) :
    (∃ e, ∀ rest, fold guard step s (ofReader ⟨offset, front ++ rest⟩) = .error e) ∨
      ∃ t, ∀ rest, fold guard step s (ofReader ⟨offset, front ++ rest⟩) =
        fold guard step t (ofReader ⟨offset + front.length, rest⟩) := by
  induction whole generalizing s offset with
  | nil => exact .inr ⟨s, fun _ => rfl⟩
  | @field number value bytes others whole _ _ ih =>
    obtain ⟨start, split⟩ := ofReader_append whole offset
    cases guarded : guard ⟨number, value.wireType⟩ start with
    | error e =>
      refine .inl ⟨e, fun rest => ?_⟩
      rw [List.append_assoc, split, fold_field, guarded, error_bind]
    | ok _ =>
      cases stepped : step s ⟨number, value, start⟩ with
      | error e =>
        refine .inl ⟨e, fun rest => ?_⟩
        rw [List.append_assoc, split, fold_field, guarded, ok_bind, stepped, error_bind]
      | ok mid =>
        have first (rest : Bytes) :
            fold guard step s (ofReader ⟨offset, bytes ++ others ++ rest⟩) =
              fold guard step mid (ofReader ⟨offset + bytes.length, others ++ rest⟩) := by
          rw [List.append_assoc, split, fold_field, guarded, ok_bind, stepped, ok_bind]
        rcases ih mid (offset + bytes.length) with ⟨e, failed⟩ | ⟨t, leads⟩
        · exact .inl ⟨e, fun rest => (first rest).trans (failed rest)⟩
        · refine .inr ⟨t, fun rest => ?_⟩
          rw [first, leads, List.length_append, Nat.add_assoc]

/-- Whether a field is let through and what it leads to does not depend on where it stands. -/
structure Steady (guard : Tag → Nat → Except DecodeError Unit)
    (step : σ → Field → Except DecodeError σ) : Prop where
  guarded : ∀ {tag : Tag} {start : Nat} (start' : Nat), guard tag start = .ok () →
    guard tag start' = .ok ()
  stepped : ∀ {s t : σ} {number : Nat} {value : Value} {start : Nat} (start' : Nat),
    step s ⟨number, value, start⟩ = .ok t → step s ⟨number, value, start'⟩ = .ok t

namespace Steady

variable (steady : Steady guard step)
include steady

theorem fold_of_run (run : Run guard step s bytes t) (offset : Nat) :
    fold guard step s (ofReader ⟨offset, bytes⟩) = .ok t := by
  induction run generalizing offset with
  | done s => rw [ofReader_nil, fold]
  | field whole guarded stepped _ ih =>
    obtain ⟨start, split⟩ := ofReader_append whole offset
    rw [split, fold_field, steady.guarded start guarded, ok_bind, steady.stepped start stepped,
      ok_bind, ih]

/-- Bytes at any place are read as if they stood alone. -/
theorem fold_at_iff (offset : Nat) :
    fold guard step s (ofReader ⟨offset, bytes⟩) = .ok t ↔
      fold guard step s (ofBytes bytes) = .ok t := by
  constructor
  · intro h
    exact steady.fold_of_run (run_of_fold h) 0
  · intro h
    exact steady.fold_of_run (run_of_fold h) offset

theorem fold_append_iff (whole : WholeFields front) :
    fold guard step s (ofBytes (front ++ rest)) = .ok t ↔
      ∃ mid, fold guard step s (ofBytes front) = .ok mid ∧
        fold guard step mid (ofBytes rest) = .ok t := by
  rcases fold_append_cases guard step whole s 0 with
    ⟨e, failed⟩ | ⟨mid, leads⟩
  · have alone := failed []
    rw [List.append_nil] at alone
    simp [ofBytes, Reader.ofBytes, failed, alone]
  · have alone := leads []
    rw [List.append_nil, ofReader_nil, fold] at alone
    simp only [ofBytes, Reader.ofBytes, leads, alone, Except.ok.injEq, exists_eq_left']
    exact steady.fold_at_iff _

theorem fold_field_iff {number : Nat} {value : Value} (whole : WholeField number value bytes)
    (start : Nat) :
    fold guard step s (ofBytes bytes) = .ok t ↔
      guard ⟨number, value.wireType⟩ start = .ok () ∧
        step s ⟨number, value, start⟩ = .ok t := by
  obtain ⟨start', split⟩ := ofReader_append whole 0
  have alone := split []
  rw [List.append_nil, ofReader_nil] at alone
  rw [ofBytes, Reader.ofBytes, alone, fold_field]
  simp only [bind_eq_ok_iff, fold, Except.ok.injEq]
  constructor
  · rintro ⟨_, guarded, mid, stepped, rfl⟩
    exact ⟨steady.guarded start guarded, steady.stepped start stepped⟩
  · rintro ⟨guarded, stepped⟩
    exact ⟨(), steady.guarded start' guarded, t, steady.stepped start' stepped, rfl⟩

end Steady

end Fields

/-- Among the fields in front of the bytes there is one of that number and wire type. -/
def HasField (tag : Tag) (bytes : Bytes) : Prop :=
  ∃ (front field back : Bytes) (value : Value), WholeFields front ∧
    WholeField tag.number value field ∧ value.wireType = tag.wireType ∧
      bytes = front ++ (field ++ back)

namespace Fields

/-- Whether a field of that number and wire type is split off. -/
def has (tag : Tag) : Fields → Bool
  | .field f rest => f.tag = tag || rest.has tag
  | .done | .badTag _ | .badValue _ _ _ => false

theorem hasField_of_has {tag : Tag} {r : Reader} (h : (ofReader r).has tag) :
    HasField tag r.rest := by
  induction r using ofReader.induct with
  | case1 r more e ht =>
    rw [ofReader_badTag more ht, has] at h
    cases h
  | case2 r more t next ht e hv =>
    rw [ofReader_badValue ht hv, has] at h
    cases h
  | case3 r more t next ht value last hv ih =>
    obtain ⟨front, spelled, passes⟩ := Reader.tag_eq_ok_iff.1 ht
    obtain ⟨type, back, spelled', passes'⟩ := Reader.value_eq_ok_iff.1 hv
    have whole : WholeField t.number value (front ++ back) :=
      ⟨front, back, by rwa [type], spelled', rfl⟩
    rw [(passes.trans passes').1]
    rw [ofReader_field ht hv, has, Bool.or_eq_true, decide_eq_true_eq] at h
    rcases h with rfl | later
    · exact ⟨[], front ++ back, last.rest, value, .nil, whole, rfl, rfl⟩
    · obtain ⟨front', field, back', value', whole', found, same, eq⟩ := ih later
      exact ⟨front ++ back ++ front', field, back', value', .field whole trivial whole', found,
        same, by rw [eq, List.append_assoc (front ++ back)]⟩
  | case4 r more =>
    rw [ofReader, if_neg more, has] at h
    cases h

theorem has_of_hasField {tag : Tag} {bytes : Bytes} (h : HasField tag bytes) (offset : Nat) :
    (ofReader ⟨offset, bytes⟩).has tag := by
  obtain ⟨front, field, back, value, whole, found, same, rfl⟩ := h
  induction whole generalizing offset with
  | nil =>
    obtain ⟨start, split⟩ := ofReader_append found offset
    rw [List.nil_append, split, has, Field.tag, same, decide_eq_true rfl, Bool.true_or]
  | @field number other first rest whole _ _ ih =>
    obtain ⟨start, split⟩ := ofReader_append whole offset
    rw [List.append_assoc, split, has, ih, Bool.or_true]

theorem has_iff {tag : Tag} {bytes : Bytes} :
    (ofBytes bytes).has tag ↔ HasField tag bytes :=
  ⟨hasField_of_has, fun h => has_of_hasField h 0⟩

end Fields

end SchemaPlugin.Wire
