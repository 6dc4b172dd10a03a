import SchemaPlugin.Proofs.MessageType.FieldOrder
import SchemaPlugin.Proofs.Wire.Scan

/-!
What a scan makes of a buffer. It ends well just on a sequence of whole fields, which is then the
only one with those bytes, and yields the tags of these fields. A buffer that is read as a message
of any type is such a sequence.
-/

namespace SchemaPlugin.MessageType

open Wire (DecodeError Reader Tag WholeFields)

def SpelledField.tag (p : SpelledField) : Tag := ⟨p.number, p.value.wireType⟩

variable {fields fields' : List SpelledField}

/-- Bytes are the fields of one list at most. -/
theorem spelling_injective (same : spelling fields = spelling fields') : fields = fields' := by
  induction fields generalizing fields' with
  | nil =>
    cases fields' with
    | nil => rfl
    | cons q _ => exact absurd (List.append_eq_nil_iff.1 same.symm).1 q.whole.ne_nil
  | cons p fields ih =>
    cases fields' with
    | nil => exact absurd (List.append_eq_nil_iff.1 same).1 p.whole.ne_nil
    | cons q fields' =>
      obtain ⟨number, value, bytes, rest⟩ := p.whole.unique q.whole same
      obtain ⟨_, _, _, _⟩ := p
      obtain ⟨_, _, _, _⟩ := q
      cases number
      cases value
      cases bytes
      rw [ih rest]

theorem exists_spelling {bytes : Bytes} (whole : WholeFields bytes) :
    ∃ fields, spelling fields = bytes := by
  induction whole with
  | nil => exact ⟨[], rfl⟩
  | field whole _ _ ih =>
    obtain ⟨fields, rfl⟩ := ih
    exact ⟨⟨_, _, _, whole⟩ :: fields, rfl⟩

theorem spelling_cons_append (p : SpelledField) (fields : List SpelledField) (rest : Bytes) :
    spelling (p :: fields) ++ rest = p.bytes ++ (spelling fields ++ rest) :=
  List.append_assoc _ _ _

theorem add_length_spelling_cons (offset : Nat) (p : SpelledField) (fields : List SpelledField) :
    offset + (spelling (p :: fields)).length =
      offset + p.bytes.length + (spelling fields).length := by
  rw [spelling, List.flatMap_cons, List.length_append, ← Nat.add_assoc]
  rfl

/-- A scan of fields in front of other bytes goes on with these bytes. -/
theorem scan_spelling (fields : List SpelledField) (offset : Nat) (rest : Bytes) :
    Reader.scan ⟨offset, spelling fields ++ rest⟩ =
      ((Reader.scan ⟨offset + (spelling fields).length, rest⟩).1.map
          (fields.map SpelledField.tag ++ ·),
        (Reader.scan ⟨offset + (spelling fields).length, rest⟩).2) := by
  induction fields generalizing offset with
  | nil =>
    change Reader.scan ⟨offset, rest⟩ = _
    cases eq : Reader.scan ⟨offset, rest⟩ with
    | mk tags stop => cases tags <;> simp [spelling, eq, Except.map]
  | cons p fields ih =>
    rw [spelling_cons_append, Reader.scan_wholeField p.whole, ih, add_length_spelling_cons]
    cases (Reader.scan _).1 <;> rfl

theorem scanned_spelling (fields : List SpelledField) (offset : Nat) (rest : Bytes) :
    Reader.Scanned ⟨offset, spelling fields ++ rest⟩ (fields.map SpelledField.tag)
      ⟨offset + (spelling fields).length, rest⟩ := by
  induction fields generalizing offset with
  | nil => exact .nil _
  | cons p fields ih =>
    obtain ⟨mid, tag, read⟩ := p.whole.reads offset (spelling fields ++ rest)
    have skip : mid.skip p.tag.wireType.number =
        .ok ⟨offset + p.bytes.length, spelling fields ++ rest⟩ := by
      rw [Reader.skip_number, SpelledField.tag, read]
      rfl
    rw [spelling_cons_append, add_length_spelling_cons]
    exact .cons tag skip (ih (offset + p.bytes.length))

/-- The steps of a scan that have gone well have taken the fields they went over. -/
theorem exists_fields_of_scanned {r next : Reader} {ts : List Tag} (scanned : r.Scanned ts next) :
    ∃ fields, r.rest = spelling fields ++ next.rest ∧ ts = fields.map SpelledField.tag := by
  induction scanned with
  | nil r => exact ⟨[], rfl, rfl⟩
  | @cons r mid last stop t ts tag skip _ ih =>
    obtain ⟨fields, eq, rfl⟩ := ih
    rw [Reader.skip_number] at skip
    obtain ⟨⟨value, last'⟩, read, eqLast⟩ := bind_eq_ok_iff.1 skip
    cases eqLast
    obtain ⟨type, bytes, whole, passes⟩ := Wire.WholeField.of_reads tag read
    refine ⟨⟨t.number, value, bytes, whole⟩ :: fields, ?_, ?_⟩
    · rw [passes.1, eq]
      exact (List.append_assoc _ _ _).symm
    · rw [List.map_cons, SpelledField.tag, type]

/-- A scan ends well just on whole fields, at the end of the buffer. -/
theorem scan_eq_ok_iff {data : Bytes} {ts : List Tag} {stop : Reader} :
    (Reader.ofBytes data).scan = (.ok ts, stop) ↔
      ∃ fields, spelling fields = data ∧ ts = fields.map SpelledField.tag ∧
        stop = ⟨data.length, []⟩ := by
  constructor
  · intro h
    rcases (Reader.ofBytes data).scan_cases with
      ⟨ts', stop', eq, scanned, ended⟩ | ⟨_, _, e, _, eq, _, _⟩
    · cases eq.symm.trans h
      obtain ⟨fields, rest, rfl⟩ := exists_fields_of_scanned scanned
      have empty : stop.rest = [] := by simpa [Reader.hasMore] using ended
      rw [empty, List.append_nil] at rest
      obtain ⟨front, passes, offset⟩ := scanned.reaches.divides
      rw [empty, List.append_nil] at passes
      exact ⟨fields, rest.symm, rfl, by rw [passes, ← offset, ← empty]⟩
    · cases eq.symm.trans h
  · rintro ⟨fields, rfl, rfl, rfl⟩
    have scanned := scan_spelling fields 0 []
    rw [List.append_nil, Reader.scan_nil, Nat.zero_add] at scanned
    rw [Reader.ofBytes, scanned]
    simp [Except.map]

theorem scan_of_decode {type : MessageType} {data : Bytes} {a : type.Content}
    (read : type.decode data = .ok a) :
    ∃ ts, (Reader.ofBytes data).scan = (.ok ts, ⟨data.length, []⟩) := by
  rw [decode_eq_fold] at read
  have whole : WholeFields data := Wire.Fields.wholeFields_of_run (Wire.Fields.run_of_fold read)
  obtain ⟨fields, eq⟩ := exists_spelling whole
  exact ⟨fields.map SpelledField.tag, scan_eq_ok_iff.2 ⟨fields, eq, rfl, rfl⟩⟩

/-- What a scan makes of the bytes `data`: it takes two bytes a step and comes to an end, which is
that of the bytes just if they are whole fields; then it has gone over these, and would go on. -/
structure SplitByScan (data : Bytes) : Prop where
  short : ∀ ts next, (Reader.ofBytes data).Scanned ts next → 2 * ts.length ≤ data.length
  stops : (∃ ts, (Reader.ofBytes data).scan = (.ok ts, ⟨data.length, []⟩) ∧
      (Reader.ofBytes data).Scanned ts ⟨data.length, []⟩) ∨
    ∃ ts last e stop, (Reader.ofBytes data).scan = (.error e, stop) ∧
      (Reader.ofBytes data).Scanned ts last ∧ last.BreaksOff e stop
  yields : ∀ ts stop, (Reader.ofBytes data).scan = (.ok ts, stop) ↔
    ∃ fields, spelling fields = data ∧ ts = fields.map SpelledField.tag ∧ stop = ⟨data.length, []⟩
  unique : ∀ fields fields', spelling fields = data → spelling fields' = data → fields = fields'
  goesOn : ∀ ts stop, (Reader.ofBytes data).scan = (.ok ts, stop) → ∀ more,
    (Reader.ofBytes (data ++ more)).scan =
      (((Reader.ofBytes more).scan.1.mapError (DecodeError.shift data.length)).map (ts ++ ·),
        (Reader.ofBytes more).scan.2.shift data.length) ∧
    ∀ us next, (Reader.ofBytes more).Scanned us next →
      (Reader.ofBytes (data ++ more)).Scanned (ts ++ us) (next.shift data.length)
  decoded : ∀ (type : MessageType) a, type.decode data = .ok a →
    ∃ ts, (Reader.ofBytes data).scan = (.ok ts, ⟨data.length, []⟩)

theorem splitByScan (data : Bytes) : SplitByScan data where
  short ts next scanned := by
    have within := scanned.reaches.within
    have taken : 0 + 2 * ts.length ≤ next.offset := scanned.offset_le
    omega
  stops := by
    rcases (Reader.ofBytes data).scan_cases with
      ⟨ts, stop, eq, scanned, _⟩ | ⟨ts, last, e, stop, eq, scanned, broken⟩
    · obtain ⟨_, -, -, rfl⟩ := scan_eq_ok_iff.1 eq
      exact .inl ⟨ts, eq, scanned⟩
    · exact .inr ⟨ts, last, e, stop, eq, scanned, broken⟩
  yields ts stop := scan_eq_ok_iff
  unique fields fields' eq eq' := spelling_injective (eq.trans eq'.symm)
  goesOn ts stop h more := by
    obtain ⟨fields, rfl, rfl, -⟩ := scan_eq_ok_iff.1 h
    have far : (⟨0 + (spelling fields).length, more⟩ : Reader) =
        (Reader.ofBytes more).shift (spelling fields).length :=
      congrArg (Reader.mk · more) (Nat.add_comm _ _)
    refine ⟨?_, fun us next scanned => ?_⟩
    · rw [Reader.ofBytes, scan_spelling, far, Reader.shift_scan]
    · refine (scanned_spelling fields 0 more).append ?_
      rw [far]
      exact scanned.shift (spelling fields).length
  decoded type a := scan_of_decode

end SchemaPlugin.MessageType
