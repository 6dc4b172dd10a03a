import SchemaPlugin.Proofs.Document.Literals
import SchemaPlugin.Proofs.Wire.ReaderSession
import SchemaPlugin.Proofs.Wire.Varint

/-!
What a decode error tells. Its offset lies in the buffer; if it counts bytes, these are the ones
left at the offset, and too few; its text gives the same numbers.
-/

namespace SchemaPlugin

namespace Text

/-- The number at the end of a text is known from the text if no digit stands before its digits. -/
theorem ofNat_at_end {a b : Text} {x y : CodePoint} {n m : Nat} (noDigit : x.isDigit = false)
    (noDigit' : y.isDigit = false) (same : a ++ x :: ofNat n = b ++ y :: ofNat m) :
    a ++ [x] = b ++ [y] ∧ n = m := by
  have digits (a : Text) {x : CodePoint} (noDigit : x.isDigit = false) (n : Nat) :
      (a ++ x :: ofNat n).reverse.takeWhile (·.isDigit) = (ofNat n).reverse := by
    have each : ∀ c ∈ (ofNat n).reverse, c.isDigit = true := fun c mem =>
      isDigit_of_mem_ofNat n c (List.mem_reverse.1 mem)
    rw [List.reverse_append, List.reverse_cons, List.append_assoc,
      List.takeWhile_append_of_pos each, List.singleton_append,
      List.takeWhile_cons_of_neg (by simp [noDigit]), List.append_nil]
  have equal : ofNat n = ofNat m := by
    refine List.reverse_injective ?_
    rw [← digits a noDigit n, ← digits b noDigit' m, same]
  rw [equal, List.append_cons, List.append_cons b] at same
  refine ⟨List.append_cancel_right same, ?_⟩
  rw [← digitsValue_ofNat n, equal, digitsValue_ofNat]

/-- A number does not end in what is no digit. -/
theorem append_ofNat_ne_concat {a b : Text} {x : CodePoint} {n : Nat}
    (noDigit : x.isDigit = false) : a ++ ofNat n ≠ b ++ [x] := by
  intro same
  obtain ⟨d, ds, eq, -⟩ := Document.exists_digit_ofNat n
  have last : (ofNat n).getLast? = some x := by
    have whole := congrArg List.getLast? same
    rw [List.getLast?_append, List.getLast?_concat] at whole
    cases h : (ofNat n).getLast? with
    | none =>
      rw [List.getLast?_eq_none_iff.1 h] at eq
      cases eq
    | some c => rwa [h] at whole
  have digit := isDigit_of_mem_ofNat n x (List.mem_of_getLast? last)
  rw [noDigit] at digit
  cases digit

end Text

namespace Wire

/-- The faults of tags and values, whatever message they are of. -/
def Fault.OfBytes : Fault → Prop
  | varintCut | varintOverflow | fieldNumberZero | unknownWireType _ | valueCut .. => True
  | invalidText _ | unknownLabel _ | nestingTooDeep _ => False

namespace DecodeError

/-- The end of a text that tells where the error is. -/
def place (e : DecodeError) : Text := " at offset " ++ Text.ofNat e.offset

/-- The end of a text that tells how many bytes are needed and how many are left. -/
def counts (expected available : Nat) : Text :=
  " (need " ++ Text.ofNat expected ++ " bytes, " ++ Text.ofNat available ++ " available)"

variable {e : DecodeError} {size : Nat}

theorem message_valueCut (value : Sized) (expected available offset : Nat) :
    message ⟨.valueCut value expected available, offset⟩ =
      Fault.text (.valueCut value expected available) ++
        (place ⟨.valueCut value expected available, offset⟩ ++ counts expected available) := by
  simp only [message, place, counts, List.append_assoc]

theorem message_of_expected?_eq_none (none : e.expected? = none) :
    e.message = e.fault.text ++ e.place := by
  obtain ⟨fault, offset⟩ := e
  cases fault with
  | valueCut => cases none
  | _ => exact List.append_assoc _ _ _

/-- What counts nothing ends in a number, and no count does. -/
theorem place_ne_counts {a b : Text} (expected available : Nat) :
    a ++ e.place ≠ b ++ counts expected available := by
  intro same
  have closing : (CodePoint.ofChar ')').isDigit = false := by decide
  have last : counts expected available =
      (" (need " ++ Text.ofNat expected ++ " bytes, " ++ Text.ofNat available ++ " available") ++
        [CodePoint.ofChar ')'] :=
    (List.append_assoc _ (Text.ofString " available") [CodePoint.ofChar ')']).symm
  rw [last, place, ← List.append_assoc, ← List.append_assoc] at same
  exact Text.append_ofNat_ne_concat closing same

/-- What a text tells at its end of the bytes, it tells of these numbers only. -/
theorem counts_unique {a b : Text} {expected available expected' available' : Nat}
    (same : a ++ counts expected available = b ++ counts expected' available') :
    a = b ∧ expected = expected' ∧ available = available' := by
  have parts (a : Text) (expected available : Nat) : a ++ counts expected available =
      ((a ++ Text.ofString " (need" ++ CodePoint.ofChar ' ' :: Text.ofNat expected ++
        Text.ofString " bytes,") ++ CodePoint.ofChar ' ' :: Text.ofNat available) ++
          Text.ofString " available)" := by
    simp only [counts, List.append_assoc, List.cons_append]
    rfl
  rw [parts, parts] at same
  have space : (CodePoint.ofChar ' ').isDigit = false := by decide
  obtain ⟨same, left⟩ := Text.ofNat_at_end space space (List.append_cancel_right same)
  obtain ⟨same, needed⟩ := Text.ofNat_at_end space space
    (List.append_cancel_right (List.append_cancel_right same))
  exact ⟨List.append_cancel_right (List.append_cancel_right same), needed, left⟩

/-- The error is told as it is, of a buffer of that many bytes. -/
structure Truthful (e : DecodeError) (size : Nat) : Prop where
  within : e.offset ≤ size
  counted : (e.expected? = none ∧ e.available? = none) ∨
    ∃ expected available, e.expected? = some expected ∧ e.available? = some available ∧
      available < expected ∧ e.offset + available = size
  tellsPlace : e.place <:+ e.message ↔ e.expected? = none ∧ e.available? = none
  tellsCounts : ∀ expected available, e.place ++ counts expected available <:+ e.message ↔
    e.expected? = some expected ∧ e.available? = some available

theorem place_suffix_iff (e : DecodeError) :
    e.place <:+ e.message ↔ e.expected? = none ∧ e.available? = none := by
  obtain ⟨fault, offset⟩ := e
  cases fault with
  | valueCut value expected available =>
    simp only [expected?, reduceCtorEq, false_and, iff_false]
    rintro ⟨front, eq⟩
    rw [message_valueCut, ← List.append_assoc] at eq
    exact place_ne_counts expected available eq
  | _ =>
    refine iff_of_true ?_ ⟨rfl, rfl⟩
    rw [message_of_expected?_eq_none rfl]
    exact List.suffix_append _ _

theorem counts_suffix_iff (e : DecodeError) (expected available : Nat) :
    e.place ++ counts expected available <:+ e.message ↔
      e.expected? = some expected ∧ e.available? = some available := by
  obtain ⟨fault, offset⟩ := e
  cases fault with
  | valueCut value needed left =>
    rw [message_valueCut]
    constructor
    · rintro ⟨front, eq⟩
      rw [← List.append_assoc, ← List.append_assoc] at eq
      obtain ⟨-, rfl, rfl⟩ := counts_unique eq
      exact ⟨rfl, rfl⟩
    · rintro ⟨⟨⟩, ⟨⟩⟩
      exact List.suffix_append _ _
  | _ =>
    refine iff_of_false ?_ nofun
    rintro ⟨front, eq⟩
    rw [message_of_expected?_eq_none rfl, ← List.append_assoc] at eq
    exact place_ne_counts expected available eq.symm

/-- An error is told as it is if its numbers are right. -/
theorem truthful_of (within : e.offset ≤ size)
    (left : ∀ value expected available, e.fault = .valueCut value expected available →
      available < expected ∧ e.offset + available = size) : e.Truthful size where
  within := within
  counted := by
    obtain ⟨fault, offset⟩ := e
    cases fault with
    | valueCut value expected available =>
      exact .inr ⟨expected, available, rfl, rfl, left value expected available rfl⟩
    | _ => exact .inl ⟨rfl, rfl⟩
  tellsPlace := place_suffix_iff e
  tellsCounts := counts_suffix_iff e

theorem truthful_of_uncounted (within : e.offset ≤ size) (uncounted : e.expected? = none) :
    e.Truthful size := by
  refine truthful_of within fun value expected available eq => ?_
  rw [expected?, eq] at uncounted
  cases uncounted

end DecodeError

namespace Reader

variable {r next : Reader} {e : DecodeError}

/-- The bytes of the buffer. -/
def size (r : Reader) : Nat := r.offset + r.rest.length

theorem Reaches.size_eq (h : r.Reaches next) : next.size = r.size := by
  obtain ⟨front, rest, offset⟩ := h
  rw [size, size, rest, offset, List.length_append, Nat.add_assoc]

/-- A fault that is found at the reader and counts nothing. -/
theorem truthful_here {fault : Fault}
    (uncounted : DecodeError.expected? ⟨fault, r.offset⟩ = none) :
    DecodeError.Truthful ⟨fault, r.offset⟩ r.size :=
  DecodeError.truthful_of_uncounted (Nat.le_add_right _ _) uncounted

/-- The error is one that tags and values can have in any buffer, and is told as it is. -/
structure Found (r : Reader) (e : DecodeError) : Prop where
  ofBytes : e.fault.OfBytes
  truthful : e.Truthful r.size

theorem Found.of_reaches (reaches : r.Reaches next) (found : next.Found e) : r.Found e :=
  ⟨found.ofBytes, reaches.size_eq ▸ found.truthful⟩

theorem found_varint (failed : r.varint = .error e) : r.Found e := by
  obtain ⟨fault, read, rfl⟩ := Varint.varint_eq_error_iff_read.1 failed
  rcases Varint.read_error_cases read with rfl | rfl
  · exact ⟨trivial, truthful_here rfl⟩
  · exact ⟨trivial, truthful_here rfl⟩

theorem found_tag (failed : r.tag = .error e) : r.Found e := by
  rcases bind_eq_error_iff.1 failed with early | ⟨⟨number, next⟩, -, late⟩
  · exact found_varint early
  · simp only at late
    split_ifs at late
    · cases late
      exact ⟨trivial, truthful_here rfl⟩
    · split at late
      · cases late
      · cases late
        exact ⟨trivial, truthful_here rfl⟩

theorem found_take {value : Sized} {n : Nat} (failed : r.take value n = .error e) : r.Found e := by
  rw [take] at failed
  split_ifs at failed with short
  cases failed
  refine ⟨trivial, DecodeError.truthful_of (Nat.le_add_right _ _) ?_⟩
  rintro _ _ _ ⟨⟩
  exact ⟨short, rfl⟩

theorem found_delimited (failed : r.delimited = .error e) : r.Found e := by
  rcases bind_eq_error_iff.1 failed with early | ⟨⟨length, next⟩, read, late⟩
  · exact found_varint early
  · exact .of_reaches (advances_varint read).reaches (found_take late)

theorem found_value {w : WireType} (failed : r.value w = .error e) : r.Found e := by
  cases w with
  | varint => exact found_varint (bind_ok_eq_error_iff.1 failed)
  | fixed64 => exact found_take (bind_ok_eq_error_iff.1 failed)
  | lengthDelimited => exact found_delimited (bind_ok_eq_error_iff.1 failed)
  | fixed32 => exact found_take (bind_ok_eq_error_iff.1 failed)

theorem truthful_skip {n : Int} (failed : r.skip n = .error e) : e.Truthful r.size := by
  rw [skip] at failed
  split at failed
  · cases failed
    exact truthful_here rfl
  · exact (found_value (bind_ok_eq_error_iff.1 failed)).truthful

theorem truthful_decodeText {payload : Bytes} {start size : Nat} (within : start ≤ size)
    (failed : decodeText payload start = .error e) : e.Truthful size := by
  rw [decodeText] at failed
  split at failed
  · cases failed
  · cases failed
    exact DecodeError.truthful_of_uncounted within rfl

theorem truthful_text (failed : r.text.1 = .error e) : e.Truthful r.size := by
  rw [text] at failed
  split at failed
  · cases failed
    rename_i eq
    exact (found_delimited eq).truthful
  · exact truthful_decodeText (Nat.le_add_right _ _) failed

theorem BreaksOff.truthful (h : r.BreaksOff e next) : e.Truthful r.size := by
  cases h with
  | tag more failed => exact (found_tag failed).truthful
  | value tag failed => exact (advances_tag tag).reaches.size_eq ▸ truthful_skip failed

theorem truthful_scan (failed : r.scan.1 = .error e) : e.Truthful r.size := by
  rcases r.scan_cases with ⟨ts, stop, eq, -, -⟩ | ⟨ts, last, e', stop, eq, scanned, broken⟩
  · rw [eq] at failed
    cases failed
  · rw [eq] at failed
    cases failed
    exact scanned.reaches.size_eq ▸ broken.truthful

end Reader

namespace ReaderSession

variable {s : ReaderSession} {op : Operation} {e : DecodeError}

theorem error_of_read {α : Type} {read : Reader → Except DecodeError (α × Reader)}
    {answer : α → Answer} (failed : (s.read read answer).1 = .error e) :
    read s.reader = .error e := by
  rw [ReaderSession.read] at failed
  split at failed
  · cases failed
  · cases failed
    assumption

/-- Whatever an operation finds wrong, it tells as it is. -/
theorem truthful_perform (failed : (s.perform op).1 = .error e) : e.Truthful s.reader.size := by
  cases op with
  | hasMore => cases failed
  | tag => exact (Reader.found_tag (error_of_read failed)).truthful
  | varint => exact (Reader.found_varint (error_of_read failed)).truthful
  | int64 => exact (Reader.found_varint (error_of_read failed)).truthful
  | bool => exact (Reader.found_varint (error_of_read failed)).truthful
  | fixed32 =>
    exact (Reader.found_take (bind_ok_eq_error_iff.1 (error_of_read failed))).truthful
  | fixed64 =>
    exact (Reader.found_take (bind_ok_eq_error_iff.1 (error_of_read failed))).truthful
  | bytes => exact (Reader.found_delimited (error_of_read failed)).truthful
  | message => exact (Reader.found_delimited (error_of_read failed)).truthful
  | text => exact Reader.truthful_text (map_eq_error_iff.1 failed)
  | skip wireType =>
    rw [perform] at failed
    split at failed
    · cases failed
    · cases failed
      rename_i eq
      exact Reader.truthful_skip eq
  | nextTag =>
    rw [perform] at failed
    split_ifs at failed
    split at failed
    · cases failed
    · cases failed
      rename_i eq
      exact (Reader.found_tag eq).truthful
  | scan => exact Reader.truthful_scan (map_eq_error_iff.1 failed)

end ReaderSession

end Wire

end SchemaPlugin
