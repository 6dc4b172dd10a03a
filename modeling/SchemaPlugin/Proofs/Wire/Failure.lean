import SchemaPlugin.Proofs.Wire.WholeFields

/-!
Where the fold over the fields fails. The fields in front of that place are taken, and the first
thing that is wrong there is the error: the tag, the refusal of the guard, the value, or the refusal
of the step, in this order.
-/

namespace SchemaPlugin.Wire.Fields

variable {σ : Type} {guard : Tag → Nat → Except DecodeError Unit}
  {step : σ → Field → Except DecodeError σ} {s t : σ} {r : Reader} {e : DecodeError}

variable (guard step) in
/-- What is wrong with the field at the reader. -/
inductive Refuses (s : σ) (r : Reader) (e : DecodeError) : Prop
  | tag (more : r.hasMore = true) (failed : r.tag = .error e)
  | guard {tag : Tag} {next : Reader} (read : r.tag = .ok (tag, next))
      (refused : guard tag next.offset = .error e)
  | value {tag : Tag} {next : Reader} (read : r.tag = .ok (tag, next))
      (passed : guard tag next.offset = .ok ()) (failed : next.value tag.wireType = .error e)
  | step {tag : Tag} {next last : Reader} {value : Value} (read : r.tag = .ok (tag, next))
      (passed : guard tag next.offset = .ok ())
      (whole : next.value tag.wireType = .ok (value, last))
      (refused : step s ⟨tag.number, value, next.offset⟩ = .error e)

theorem fold_of_refuses (refuses : Refuses guard step s r e) :
    fold guard step s (ofReader r) = .error e := by
  cases refuses with
  | tag more failed => rw [ofReader_badTag more failed, fold]
  | @guard tag next read refused =>
    cases value : next.value tag.wireType with
    | error e' => rw [ofReader_badValue read value, fold, refused, error_bind]
    | ok p =>
      obtain ⟨v, last⟩ := p
      obtain ⟨type, -⟩ := Reader.value_eq_ok_iff.1 value
      rw [ofReader_field read value, fold_field, type, refused, error_bind]
  | value read passed failed => rw [ofReader_badValue read failed, fold, passed, ok_bind]
  | step read passed whole refused =>
    obtain ⟨type, -⟩ := Reader.value_eq_ok_iff.1 whole
    rw [ofReader_field read whole, fold_field, type, passed, ok_bind, refused, error_bind]

/-- Fields that lead from a state to another are taken in front of whatever follows. -/
theorem Steady.fold_passes (steady : Steady guard step) {front : Bytes} {next : Reader}
    (taken : fold guard step s (ofBytes front) = .ok t) (passes : r.Passes front next) :
    fold guard step s (ofReader r) = fold guard step t (ofReader next) := by
  obtain ⟨offset, bytes⟩ := r
  obtain ⟨rest, place⟩ : bytes = front ++ next.rest ∧ next.offset = offset + front.length := passes
  have whole : WholeFields front := wholeFields_of_run (run_of_fold taken)
  rw [rest]
  rcases fold_append_cases guard step whole s offset with
    ⟨e, failed⟩ | ⟨t', leads⟩
  · have alone := failed []
    rw [List.append_nil, (steady.fold_at_iff offset).2 taken] at alone
    cases alone
  · have alone := leads []
    rw [List.append_nil, (steady.fold_at_iff offset).2 taken, ofReader_nil, fold] at alone
    cases alone
    rw [leads, ← place]

variable (guard step) in
/-- Some fields are taken, and what follows them is refused. -/
def FailsAfter (s : σ) (r : Reader) (e : DecodeError) : Prop :=
  ∃ front next t, r.Passes front next ∧ fold guard step s (ofBytes front) = .ok t ∧
    Refuses guard step t next e

theorem Refuses.failsAfter (refuses : Refuses guard step s r e) : FailsAfter guard step s r e :=
  ⟨[], r, s, ⟨rfl, rfl⟩, by rw [ofBytes, Reader.ofBytes, ofReader_nil, fold], refuses⟩

/-- The fold fails just where the fields before are taken and one is refused. -/
theorem Steady.fold_eq_error_iff (steady : Steady guard step) :
    fold guard step s (ofReader r) = .error e ↔ FailsAfter guard step s r e := by
  constructor
  · intro h
    induction r using ofReader.induct generalizing s with
    | case1 r more e' ht =>
      rw [ofReader_badTag more ht, fold] at h
      cases h
      exact (Refuses.tag more ht).failsAfter
    | case2 r more tag next ht e' hv =>
      rw [ofReader_badValue ht hv, fold] at h
      rcases bind_eq_error_iff.1 h with refused | ⟨⟨⟩, passed, eq⟩
      · exact (Refuses.guard ht refused).failsAfter
      · cases eq
        exact (Refuses.value ht passed hv).failsAfter
    | case3 r more tag next ht value last hv ih =>
      obtain ⟨type, bytes, whole, passes⟩ := WholeField.of_reads ht hv
      rw [ofReader_field ht hv, fold_field, type] at h
      rcases bind_eq_error_iff.1 h with refused | ⟨⟨⟩, passed, h⟩
      · exact (Refuses.guard ht refused).failsAfter
      rcases bind_eq_error_iff.1 h with refused | ⟨mid, stepped, h⟩
      · exact (Refuses.step ht passed hv refused).failsAfter
      have first : fold guard step s (ofBytes bytes) = .ok mid :=
        (steady.fold_field_iff whole next.offset).2 ⟨by rwa [type], stepped⟩
      obtain ⟨others, stop, t, passes', taken, refuses⟩ := ih h
      exact ⟨bytes ++ others, stop, t, passes.trans passes',
        (steady.fold_append_iff (.single whole trivial)).2 ⟨mid, first, taken⟩, refuses⟩
    | case4 r more =>
      rw [ofReader, if_neg more, fold] at h
      cases h
  · rintro ⟨front, next, t, passes, taken, refuses⟩
    rw [steady.fold_passes taken passes]
    exact fold_of_refuses refuses

end SchemaPlugin.Wire.Fields
