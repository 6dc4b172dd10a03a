import Mathlib
import SchemaPlugin.Proofs.Wire.Mirror
import SchemaPlugin.Proofs.Wire.Varint

/-!
Tags exactly. A tag is the varint of one number, the field number above three bits of wire type. No
two tags are written alike; a tag is read back if its field number leaves room for those bits; and
what is read as a tag is no shorter than what is written for it.
-/

namespace SchemaPlugin.Wire

namespace Varint

variable {n m : Nat} {bytes : Bytes}

/-- What is written for a number spells it, however large it is. -/
theorem groups_ofNat (n : Nat) : Groups (ofNat n) n := by
  induction n using ofNat.induct with
  | case1 n small =>
    have last := Groups.last (b := .ofNat n) (by rwa [toNat_ofNat (by omega)])
    rwa [toNat_ofNat (by omega), ← ofNat_small small] at last
  | case2 n large ih =>
    have more := ih.more (b := .ofNat (128 + n % 128)) (by rw [toNat_ofNat (by omega)]; omega)
    have value : (128 + n % 128) % 128 + 128 * (n / 128) = n := by omega
    rwa [toNat_ofNat (by omega), value, ← ofNat_large (by omega)] at more

theorem Groups.unique (h : Groups bytes n) (h' : Groups bytes m) : n = m := by
  induction h generalizing m with
  | last small =>
    cases h' with
    | last => rfl
    | more large => omega
  | more large _ ih =>
    cases h' with
    | last small => omega
    | more _ rest => rw [ih rest]

theorem ofNat_injective : Function.Injective ofNat := fun n m same =>
  (groups_ofNat n).unique (same ▸ groups_ofNat m)

theorem Groups.length_ofNat_le (h : Groups bytes n) : (ofNat n).length ≤ bytes.length := by
  rcases h.eq_or_padded with rfl | padded
  · exact Nat.le_refl _
  · exact Nat.le_of_lt padded.length_lt

end Varint

theorem WireType.ofNumber?_eq_none_iff {n : Nat} :
    ofNumber? (n % 8 : Nat) = none ↔ n % 8 ∈ [3, 4, 6, 7] := by
  rw [ofNumber?]
  split_ifs <;> simp <;> omega

namespace Tag

open Varint (Begins Overflows groupSum)

/-- What is wrong with bytes that begin with no tag: they begin with no varint, or with one whose
field number is zero, or else with one whose wire type is unknown. -/
inductive Unreadable (bytes : Bytes) : Fault → Prop
  | overflow (overflows : Overflows bytes) : Unreadable bytes .varintOverflow
  | cut (fits : ¬Overflows bytes) (endless : ∀ k, ¬Begins bytes k) : Unreadable bytes .varintCut
  | number {k : Nat} (begins : Begins bytes k) (zero : groupSum bytes k / 8 = 0) :
      Unreadable bytes .fieldNumberZero
  | wireType {k : Nat} (begins : Begins bytes k) (nonzero : groupSum bytes k / 8 ≠ 0)
      (unknown : groupSum bytes k % 8 ∈ [3, 4, 6, 7]) :
      Unreadable bytes (.unknownWireType (groupSum bytes k % 8 : Nat))

variable {bytes : Bytes} {offset : Nat} {t : Tag} {next : Reader} {e : DecodeError}

/-- Where no tag is read, the error names what is wrong there and the place of the tag. -/
theorem tag_at_eq_error_iff : (Reader.ofBytesAt bytes offset).tag = .error e ↔
    ∃ fault, Unreadable (bytes.drop offset) fault ∧ e = ⟨fault, offset⟩ := by
  rw [Reader.tag, bind_eq_error_iff]
  constructor
  · rintro (failed | ⟨⟨n, next⟩, read, failed⟩)
    · rcases Varint.varint_at_eq_error_iff.1 failed with ⟨overflows, rfl⟩ | ⟨⟨fits, endless⟩, rfl⟩
      · exact ⟨_, .overflow overflows, rfl⟩
      · exact ⟨_, .cut fits endless, rfl⟩
    · obtain ⟨k, begins, rfl, rfl⟩ := Varint.varint_at_eq_ok_iff.1 read
      dsimp only at failed
      split_ifs at failed with zero
      · cases failed
        exact ⟨_, .number begins zero, rfl⟩
      · split at failed
        · cases failed
        · rename_i unknown
          cases failed
          exact ⟨_, .wireType begins zero (WireType.ofNumber?_eq_none_iff.1 unknown), rfl⟩
  · rintro ⟨fault, unreadable, rfl⟩
    cases unreadable with
    | overflow overflows =>
      exact .inl (Varint.varint_at_eq_error_iff.2 (.inl ⟨overflows, rfl⟩))
    | cut fits endless =>
      exact .inl (Varint.varint_at_eq_error_iff.2 (.inr ⟨⟨fits, endless⟩, rfl⟩))
    | number begins zero =>
      have read := Varint.varint_at_eq_ok_iff.2 ⟨_, begins, rfl, rfl⟩
      refine .inr ⟨_, read, ?_⟩
      dsimp only
      rw [if_pos zero]
      rfl
    | wireType begins nonzero unknown =>
      have read := Varint.varint_at_eq_ok_iff.2 ⟨_, begins, rfl, rfl⟩
      refine .inr ⟨_, read, ?_⟩
      dsimp only
      rw [if_neg nonzero, WireType.ofNumber?_eq_none_iff.2 unknown]
      rfl

section Written

variable {number number' : Nat} {type type' : WireType}

theorem number_mul_add_inj
    (same : number * 8 + type.number = number' * 8 + type'.number) :
    number = number' ∧ type = type' := by
  have low := type.number_lt
  have low' := type'.number_lt
  have found : WireType.ofNumber? type.number = some type' :=
    WireType.ofNumber?_eq_some_iff.2 (by omega)
  rw [WireType.ofNumber?_eq_some_iff.2 rfl] at found
  exact ⟨by omega, Option.some.inj found⟩

/-- Two tags are never written alike, also where their field numbers are too large to be read. -/
theorem encode_injective : Function.Injective encode := fun ⟨_, _⟩ ⟨_, _⟩ same => by
  obtain ⟨rfl, rfl⟩ := number_mul_add_inj (Varint.ofNat_injective same)
  rfl

theorem tag_encode (valid : Fields.ValidNumber number) (type : WireType) :
    (Reader.ofBytes (encode ⟨number, type⟩)).tag =
      .ok (⟨number, type⟩, ⟨(encode ⟨number, type⟩).length, []⟩) := by
  have read := Reader.tag_written 0 [] valid type
  rwa [List.append_nil, Nat.zero_add] at read

theorem tag_encode_overflow (large : 2 ^ 61 ≤ number) (type : WireType) :
    (Reader.ofBytes (encode ⟨number, type⟩)).tag = .error ⟨.varintOverflow, 0⟩ := by
  have overflows : ¬number * 8 + type.number < word64 := by
    rw [word64]
    omega
  have failed := Reader.varint_ofNat_overflow overflows 0 []
  rw [List.append_nil] at failed
  exact bind_eq_error_iff.2 (.inl failed)

end Written

/-- A tag that is read has a field number of at most 61 bits, and what is written for it is no
longer than what it was read from. -/
theorem written_of_read (read : (Reader.ofBytesAt bytes offset).tag = .ok (t, next)) :
    Fields.ValidNumber t.number ∧ ∃ k, next = Reader.ofBytesAt bytes (offset + k) ∧
      (encode t).length ≤ k := by
  obtain ⟨front, ⟨pos, groups, -, bound⟩, passes⟩ := Reader.tag_eq_ok_iff.1 read
  have valid : t.number < 0x2000000000000000 := by
    rw [word64] at bound
    omega
  refine ⟨⟨pos, valid⟩, front.length, ?_, groups.length_ofNat_le⟩
  have left : next.rest = bytes.drop (offset + front.length) := by
    have split : bytes.drop offset = front ++ next.rest := passes.1
    rw [← List.drop_drop, split, List.drop_left]
  rw [passes.eq, left]
  rfl

/-- The bytes of a tag, written and read. A tag is read back if its field number has at most 61 bits
and refused if it has more, and no two tags are written alike. What is read at any place has such a
field number and one of the four wire types, and is read back from bytes that are no longer. Nothing
else is refused than what begins with no varint, or with one that has the field number zero, or,
after that, a wire type that there is not; the error is always at the place of the tag. -/
theorem reads_exactly :
    (∀ (number : Nat) (type : WireType), 1 ≤ number →
      ∃ bytes, encode? number type.number = .ok bytes ∧
        (number < 2 ^ 61 →
          (Reader.ofBytes bytes).tag = .ok (⟨number, type⟩, ⟨bytes.length, []⟩)) ∧
        (2 ^ 61 ≤ number → (Reader.ofBytes bytes).tag = .error ⟨.varintOverflow, 0⟩)) ∧
    (∀ (number number' : Nat) (type type' : WireType), 1 ≤ number → 1 ≤ number' →
      encode? number type.number = encode? number' type'.number →
        number = number' ∧ type = type') ∧
    (∀ (bytes : Bytes) (offset : Nat) (t : Tag) (next : Reader),
      (Reader.ofBytesAt bytes offset).tag = .ok (t, next) →
        1 ≤ t.number ∧ t.number < 2 ^ 61 ∧ t.wireType.number ∈ [0, 1, 2, 5] ∧
          ∃ k again, next = Reader.ofBytesAt bytes (offset + k) ∧
            encode? t.number t.wireType.number = .ok again ∧ again.length ≤ k ∧
              (Reader.ofBytes again).tag = .ok (t, ⟨again.length, []⟩)) ∧
    ∀ (bytes : Bytes) (offset : Nat) (e : DecodeError),
      (Reader.ofBytesAt bytes offset).tag = .error e ↔
        ∃ fault, Unreadable (bytes.drop offset) fault ∧ e = ⟨fault, offset⟩ := by
  refine ⟨fun number type pos => ?_, fun number number' type type' pos pos' same => ?_,
    fun bytes offset t next read => ?_, fun bytes offset e => tag_at_eq_error_iff⟩
  · exact ⟨_, encode?_eq_ok pos type, fun small => tag_encode ⟨pos, small⟩ type,
      fun large => tag_encode_overflow large type⟩
  · rw [encode?_eq_ok pos, encode?_eq_ok pos', Except.ok.injEq] at same
    cases encode_injective same
    exact ⟨rfl, rfl⟩
  · obtain ⟨valid, k, place, short⟩ := written_of_read read
    have four : t.wireType.number ∈ [0, 1, 2, 5] := by cases t.wireType <;> decide
    exact ⟨valid.1, valid.2, four, k, _, place, encode?_eq_ok valid.1 _, short,
      tag_encode valid _⟩

/-- The largest field number that is read and the next one; a padded tag behind another byte; field
number zero with an unknown wire type, and an unknown wire type alone. -/
theorem reads_exactly_extremes :
    (∃ bytes, encode? (2 ^ 61 - 1 : Nat) WireType.fixed32.number = .ok bytes ∧
        (Reader.ofBytes bytes).tag = .ok (⟨2 ^ 61 - 1, .fixed32⟩, ⟨bytes.length, []⟩)) ∧
      (∃ bytes, encode? (2 ^ 61 : Nat) WireType.varint.number = .ok bytes ∧
        (Reader.ofBytes bytes).tag = .error ⟨.varintOverflow, 0⟩) ∧
      encode? (1 : Nat) WireType.varint.number ≠ encode? (1 : Nat) WireType.fixed64.number ∧
      (∃ k again, encode? (1 : Nat) WireType.lengthDelimited.number = .ok again ∧
        again.length ≤ k ∧ Reader.ofBytesAt [0x00, 0x8A, 0x80, 0x00] 4 =
          Reader.ofBytesAt [0x00, 0x8A, 0x80, 0x00] (1 + k)) ∧
      (Reader.ofBytesAt [0x07] 0).tag = .error ⟨.fieldNumberZero, 0⟩ ∧
      (Reader.ofBytesAt [0x00, 0x0B] 1).tag = .error ⟨.unknownWireType 3, 1⟩ := by
  obtain ⟨written, distinct, read, refused⟩ := reads_exactly
  obtain ⟨_, largest, back, -⟩ := written (2 ^ 61 - 1) .fixed32 (by decide)
  obtain ⟨_, larger, -, tooLarge⟩ := written (2 ^ 61) .varint (by decide)
  obtain ⟨-, -, -, k, again, place, eq, short, -⟩ :=
    read [0x00, 0x8A, 0x80, 0x00] 1 ⟨1, .lengthDelimited⟩ ⟨4, []⟩ (by decide)
  refine ⟨⟨_, largest, back (by decide)⟩, ⟨_, larger, tooLarge (by decide)⟩, fun same => ?_,
    ⟨k, again, eq, short, place⟩, (refused _ _ _).2 ⟨_, ?_, rfl⟩, (refused _ _ _).2 ⟨_, ?_, rfl⟩⟩
  · cases (distinct 1 1 .varint .fixed64 (by decide) (by decide) same).2
  · exact .number (k := 1) ⟨by decide, by decide, by decide, by decide⟩ (by decide)
  · exact .wireType (k := 1) ⟨by decide, by decide, by decide, by decide⟩ (by decide) (by decide)

end Tag

end SchemaPlugin.Wire
