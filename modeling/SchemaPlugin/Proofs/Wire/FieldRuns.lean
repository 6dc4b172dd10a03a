import SchemaPlugin.Proofs.Text.WellFormed
import SchemaPlugin.Proofs.Wire.Spelling

/-!
What a message makes of the bytes of its fields. The fold over the fields is a run of field steps,
each of which consumes the spelling of one field; whether the fold ends well, when every step is
decided by its field alone, is a question about the sequence of the fields.
-/

namespace SchemaPlugin.Wire

theorem decodeText_eq_ok_iff {payload : Bytes} {start : Nat} {t : Text} :
    decodeText payload start = .ok t ↔ Utf8.decode payload = .ok t := by
  rw [decodeText]
  split <;> simp_all

theorem decodeText_isOk_iff {payload : Bytes} {start : Nat} :
    (∃ t, decodeText payload start = .ok t) ↔ Utf8.WellFormed payload := by
  simp only [decodeText_eq_ok_iff, Utf8.decode_isOk_iff]

theorem encodable_of_decodeText {payload : Bytes} {start : Nat} {t : Text}
    (h : decodeText payload start = .ok t) : t.Encodable :=
  (Utf8.decode_eq_ok_iff.1 (decodeText_eq_ok_iff.1 h)).1

namespace Fields

theorem ofReader_nil (offset : Nat) : ofReader ⟨offset, []⟩ = .done := by
  rw [ofReader]
  rfl

theorem hasMore_of_tag {r next : Reader} {t : Tag} (h : r.tag = .ok (t, next)) :
    r.hasMore = true := by
  have := Reader.length_tag h
  cases hr : r.rest <;> simp_all [Reader.hasMore]

theorem ofReader_badTag {r : Reader} {e : DecodeError} (more : r.hasMore = true)
    (ht : r.tag = .error e) : ofReader r = .badTag e := by
  rw [ofReader, if_pos more]
  split <;> simp_all

theorem ofReader_badValue {r next : Reader} {t : Tag} {e : DecodeError}
    (ht : r.tag = .ok (t, next)) (hv : next.value t.wireType = .error e) :
    ofReader r = .badValue t next.offset e := by
  rw [ofReader, if_pos (hasMore_of_tag ht)]
  split
  · simp_all
  · rename_i heq
    cases ht.symm.trans heq
    split <;> simp_all

theorem ofReader_field {r next last : Reader} {t : Tag} {v : Value}
    (ht : r.tag = .ok (t, next)) (hv : next.value t.wireType = .ok (v, last)) :
    ofReader r = .field ⟨t.number, v, next.offset⟩ (ofReader last) := by
  rw [ofReader, if_pos (hasMore_of_tag ht)]
  split
  · simp_all
  · rename_i heq
    cases ht.symm.trans heq
    split
    · simp_all
    · rename_i heq
      cases hv.symm.trans heq
      rfl

/-- A whole field is split off whatever follows it. -/
theorem ofReader_append {number : Nat} {value : Value} {bytes : Bytes}
    (whole : WholeField number value bytes) (offset : Nat) :
    ∃ start, ∀ rest, ofReader ⟨offset, bytes ++ rest⟩ =
      .field ⟨number, value, start⟩ (ofReader ⟨offset + bytes.length, rest⟩) := by
  obtain ⟨front, back, ht, hv, rfl⟩ := whole
  refine ⟨offset + front.length, fun rest => ?_⟩
  have tag : Reader.tag ⟨offset, front ++ back ++ rest⟩ =
      .ok (⟨number, value.wireType⟩, ⟨offset + front.length, back ++ rest⟩) :=
    Reader.tag_eq_ok_iff.2 ⟨front, ht, List.append_assoc _ _ _, rfl⟩
  have read : Reader.value ⟨offset + front.length, back ++ rest⟩ value.wireType =
      .ok (value, ⟨offset + (front ++ back).length, rest⟩) :=
    Reader.value_eq_ok_iff.2 ⟨rfl, back, hv, rfl, by
      rw [List.length_append]
      exact (Nat.add_assoc _ _ _).symm⟩
  exact ofReader_field tag read

section Run

variable {σ : Type} (guard : Tag → Nat → Except DecodeError Unit)
  (step : σ → Field → Except DecodeError σ)

/-- The fields of the bytes take a state to another, each by a step that is not refused. -/
inductive Run : σ → Bytes → σ → Prop
  | done (s : σ) : Run s [] s
  | field {s mid t : σ} {number start : Nat} {value : Value} {bytes rest : Bytes}
      (whole : WholeField number value bytes)
      (guarded : guard ⟨number, value.wireType⟩ start = .ok ())
      (stepped : step s ⟨number, value, start⟩ = .ok mid) (tail : Run mid rest t) :
      Run s (bytes ++ rest) t

variable {guard step} {s t : σ}

theorem run_of_fold {r : Reader} (h : fold guard step s (ofReader r) = .ok t) :
    Run guard step s r.rest t := by
  -- Every field takes bytes off the reader, those of its tag at least.
  induction hn : r.rest.length using Nat.strongRecOn generalizing r s with
  | _ n ih =>
    cases more : r.hasMore with
    | false =>
      have empty : r.rest = [] := by simpa [Reader.hasMore] using more
      rw [ofReader, more, if_neg (by simp), fold] at h
      cases h
      rw [empty]
      exact .done _
    | true =>
      cases ht : r.tag with
      | error e => simp [ofReader_badTag more ht, fold] at h
      | ok p =>
        obtain ⟨⟨number, type⟩, next⟩ := p
        cases hv : next.value type with
        | error e =>
          rw [ofReader_badValue ht hv, fold] at h
          obtain ⟨_, _, h⟩ := bind_eq_ok_iff.1 h
          cases h
        | ok p =>
          obtain ⟨value, last⟩ := p
          rw [ofReader_field ht hv, fold] at h
          obtain ⟨_, guarded, h⟩ := bind_eq_ok_iff.1 h
          obtain ⟨mid, stepped, h⟩ := bind_eq_ok_iff.1 h
          have shorter := Reader.length_tag ht
          have shorter' := Reader.length_value hv
          have tail := ih last.rest.length (by omega) h rfl
          obtain ⟨front, spelled, passes⟩ := Reader.tag_eq_ok_iff.1 ht
          obtain ⟨rfl, back, spelled', passes'⟩ := Reader.value_eq_ok_iff.1 hv
          rw [(passes.trans passes').1]
          exact .field ⟨front, back, spelled, spelled', rfl⟩ guarded stepped tail

/-- What every step keeps, a run keeps. -/
theorem Run.invariant {bytes : Bytes} (run : Run guard step s bytes t) (Inv : σ → Prop)
    (keep : ∀ s mid number value start bytes, WholeField number value bytes →
      guard ⟨number, value.wireType⟩ start = .ok () → Inv s →
      step s ⟨number, value, start⟩ = .ok mid → Inv mid)
    (h : Inv s) : Inv t := by
  induction run with
  | done => exact h
  | field whole guarded stepped _ ih => exact ih (keep _ _ _ _ _ _ whole guarded h stepped)

/-- What every step keeps, whatever bytes it takes, a run keeps. -/
theorem Run.invariant_of_step {bytes : Bytes} (run : Run guard step s bytes t) (Inv : σ → Prop)
    (keep : ∀ s mid f, Inv s → step s f = .ok mid → Inv mid) (h : Inv s) : Inv t :=
  run.invariant Inv (fun s mid number value start _ _ _ => keep s mid ⟨number, value, start⟩) h

end Run

end Fields

/-- The bytes are whole fields, one after the other, each admitted. -/
inductive Sequence (admits : Nat → Value → Prop) : Bytes → Prop
  | nil : Sequence admits []
  | field {number : Nat} {value : Value} {bytes rest : Bytes}
      (whole : WholeField number value bytes) (admitted : admits number value)
      (tail : Sequence admits rest) : Sequence admits (bytes ++ rest)

theorem Sequence.single {admits : Nat → Value → Prop} {number : Nat} {value : Value}
    {bytes : Bytes} (whole : WholeField number value bytes) (admitted : admits number value) :
    Sequence admits bytes :=
  bytes.append_nil ▸ .field whole admitted .nil

namespace Fields

variable {σ : Type} {guard : Tag → Nat → Except DecodeError Unit}
  {step : σ → Field → Except DecodeError σ} {s t : σ}

/-- A message is read exactly if it is a sequence of fields that are let through and taken. -/
theorem exists_fold_iff {admits : Nat → Value → Prop}
    (taken : ∀ s (f : Field), (guard f.tag f.start = .ok () ∧ ∃ t, step s f = .ok t) ↔
      admits f.number f.value) (s : σ) (r : Reader) :
    (∃ t, fold guard step s (ofReader r) = .ok t) ↔ Sequence admits r.rest := by
  constructor
  · rintro ⟨t, h⟩
    have run := run_of_fold h
    generalize r.rest = bytes at run
    clear h
    induction run with
    | done => exact .nil
    | @field s mid t number start value bytes rest whole guarded stepped _ ih =>
      exact .field whole ((taken s ⟨number, value, start⟩).1 ⟨guarded, mid, stepped⟩) ih
  · intro h
    obtain ⟨offset, bytes⟩ := r
    change Sequence admits bytes at h
    induction h generalizing s offset with
    | nil => exact ⟨s, by rw [ofReader_nil, fold]⟩
    | @field number value bytes rest whole admitted _ ih =>
      obtain ⟨start, eq⟩ := ofReader_append whole offset
      obtain ⟨guarded, mid, stepped⟩ := (taken s ⟨number, value, start⟩).2 admitted
      obtain ⟨t, tail⟩ := ih mid (offset + bytes.length)
      exact ⟨t, by rw [eq, fold, guarded, ok_bind, stepped, ok_bind, tail]⟩

theorem exists_fold_noGuard_iff {admits : Nat → Value → Prop}
    (taken : ∀ s (f : Field), (∃ t, step s f = .ok t) ↔ admits f.number f.value) (s : σ)
    (bytes : Bytes) : (∃ t, fold noGuard step s (ofBytes bytes) = .ok t) ↔ Sequence admits bytes :=
  exists_fold_iff (fun s f => (and_iff_right rfl).trans (taken s f)) s (Reader.ofBytes bytes)

end Fields

end SchemaPlugin.Wire
