import Mathlib
import SchemaPlugin.Proofs.Wire.Spelling

/-!
Varints byte by byte. What is read as a varint is up to nine bytes that say that another group
follows and one that does not, a tenth byte having room for one bit only. Of the spellings of a
number the written one is the shortest, and every other is that one with groups of zeros after it.
-/

namespace SchemaPlugin.Wire

namespace Varint

/-- The first `k` bytes say that another group follows. -/
def Continues (bytes : Bytes) (k : Nat) : Prop :=
  ∀ i < k, ∃ b ∈ bytes[i]?, 128 ≤ b.toNat

instance (bytes : Bytes) (k : Nat) : Decidable (Continues bytes k) :=
  inferInstanceAs (Decidable (∀ i < k, ∃ b ∈ bytes[i]?, 128 ≤ b.toNat))

/-- The number that the first `k` groups of seven bits make up, the lowest first. -/
def groupSum (bytes : Bytes) (k : Nat) : Nat :=
  ∑ i ∈ Finset.range k, (bytes.getD i 0).toNat % 128 * 128 ^ i

/-- The bytes begin with a varint of `k` bytes. -/
structure Begins (bytes : Bytes) (k : Nat) : Prop where
  pos : 1 ≤ k
  le_maxBytes : k ≤ maxBytes
  continued : Continues bytes (k - 1)
  ended : ∃ b ∈ bytes[k - 1]?, b.toNat < 128 ∧ (k = maxBytes → b.toNat ≤ 1)

/-- The tenth byte is there, and holds more than the one bit that is left for it. -/
def Overflows (bytes : Bytes) : Prop :=
  Continues bytes (maxBytes - 1) ∧ ∃ b ∈ bytes[maxBytes - 1]?, 1 < b.toNat

/-- The bytes are a varint of that number and nothing else. -/
def IsVarint (bytes : Bytes) (n : Nat) : Prop :=
  (Reader.ofBytes bytes).varint = .ok (n, ⟨bytes.length, []⟩)

/-- The long bytes are the short ones with groups of zeros after them: the last byte of the short
ones now says that another group follows, as do `zeros` empty groups, and a last empty one does
not. -/
def Padded (short long : Bytes) : Prop :=
  ∃ front last zeros, short = front ++ [last] ∧
    long = front ++ (last ||| 0x80) :: (List.replicate zeros 0x80 ++ [0x00])

section Read

variable {left k n : Nat} {b : UInt8} {bytes rest : Bytes}

theorem continues_zero : Continues bytes 0 := fun i h => absurd h (Nat.not_lt_zero i)

theorem continues_cons : Continues (b :: bytes) (k + 1) ↔ 128 ≤ b.toNat ∧ Continues bytes k := by
  constructor
  · intro h
    obtain ⟨c, eq, large⟩ := h 0 (Nat.succ_pos k)
    cases eq
    exact ⟨large, fun i hi => h (i + 1) (Nat.succ_lt_succ hi)⟩
  · rintro ⟨large, tail⟩ i hi
    cases i with
    | zero => exact ⟨b, rfl, large⟩
    | succ i => exact tail i (Nat.lt_of_succ_lt_succ hi)

theorem groupSum_cons (b : UInt8) (bytes : Bytes) (k : Nat) :
    groupSum (b :: bytes) (k + 1) = b.toNat % 128 + 128 * groupSum bytes k := by
  have shifted (i : Nat) : ((b :: bytes).getD (i + 1) 0).toNat % 128 * 128 ^ (i + 1) =
      128 * ((bytes.getD i 0).toNat % 128 * 128 ^ i) := by
    rw [List.getD_cons_succ, Nat.pow_succ]
    ring
  rw [groupSum, Finset.sum_range_succ']
  simp only [shifted, ← Finset.mul_sum, List.getD_cons_zero, Nat.pow_zero, Nat.mul_one]
  exact Nat.add_comm _ _

/-- Reading stops at the first byte that says that no group follows. -/
theorem read_eq_ok_iff_continues :
    read (left + 1) bytes = .ok (n, rest) ↔ ∃ k ≤ left, Continues bytes k ∧
      (∃ b ∈ bytes[k]?, b.toNat < 128 ∧ (k = left → b.toNat ≤ 1)) ∧
      n = groupSum bytes (k + 1) ∧ rest = bytes.drop (k + 1) := by
  induction left generalizing bytes n with
  | zero =>
    cases bytes with
    | nil => simp [read]
    | cons b bytes =>
      rw [read_one]
      constructor
      · intro h
        split_ifs at h with small
        cases h
        refine ⟨0, le_rfl, continues_zero, ⟨b, rfl, by omega, fun _ => by omega⟩, ?_, rfl⟩
        rw [groupSum_cons, groupSum, Finset.sum_range_zero]
        omega
      · rintro ⟨k, bound, -, ⟨c, eq, small, bit⟩, rfl, rfl⟩
        obtain rfl := Nat.le_zero.1 bound
        cases eq
        have bit := bit rfl
        rw [if_pos (by omega), groupSum_cons, groupSum, Finset.sum_range_zero,
          Nat.mod_eq_of_lt small]
        rfl
  | succ left ih =>
    cases bytes with
    | nil => simp [read]
    | cons b bytes =>
      rw [read_succ]
      constructor
      · intro h
        split_ifs at h with small
        · cases h
          refine ⟨0, Nat.zero_le _, continues_zero, ⟨b, rfl, small, by omega⟩, ?_, rfl⟩
          rw [groupSum_cons, groupSum, Finset.sum_range_zero]
          omega
        · obtain ⟨⟨high, tail⟩, hr, eq⟩ := bind_eq_ok_iff.1 h
          cases eq
          obtain ⟨k, bound, continued, ⟨c, at_, last, bit⟩, rfl, rfl⟩ := ih.1 hr
          refine ⟨k + 1, Nat.succ_le_succ bound, continues_cons.2 ⟨by omega, continued⟩,
            ⟨c, at_, last, fun h => bit (Nat.succ.inj h)⟩, ?_, rfl⟩
          rw [groupSum_cons]
      · rintro ⟨k, bound, continued, ⟨c, at_, last, bit⟩, rfl, rfl⟩
        cases k with
        | zero =>
          cases at_
          rw [if_pos last, groupSum_cons, groupSum, Finset.sum_range_zero,
            Nat.mod_eq_of_lt last]
          rfl
        | succ k =>
          obtain ⟨large, continued⟩ := continues_cons.1 continued
          have read := ih.2 ⟨k, Nat.le_of_succ_le_succ bound, continued,
            ⟨c, at_, last, fun h => bit (congrArg (· + 1) h)⟩, rfl, rfl⟩
          rw [if_neg (by omega), read, groupSum_cons]
          rfl

/-- A varint is too long just when the last byte that may be read is there and has no room. -/
theorem read_eq_overflow_iff :
    read (left + 1) bytes = .error .varintOverflow ↔
      Continues bytes left ∧ ∃ b ∈ bytes[left]?, 1 < b.toNat := by
  induction left generalizing bytes with
  | zero =>
    cases bytes with
    | nil => simp [read]
    | cons b bytes =>
      rw [read_one]
      split_ifs with small
      · simp only [false_iff]
        rintro ⟨-, c, eq, large⟩
        cases eq
        omega
      · exact ⟨fun _ => ⟨continues_zero, b, rfl, by omega⟩, fun _ => rfl⟩
  | succ left ih =>
    cases bytes with
    | nil => simp [read]
    | cons b bytes =>
      rw [read_succ, continues_cons, and_assoc, List.getElem?_cons_succ, ← ih]
      split_ifs with small
      · simp only [false_iff]
        rintro ⟨large, -⟩
        omega
      · cases read (left + 1) bytes with
        | error fault => simp [Nat.le_of_not_lt small]
        | ok p => simp

theorem read_error_cases {fault : Fault} (h : read left bytes = .error fault) :
    fault = .varintOverflow ∨ fault = .varintCut := by
  induction left generalizing bytes with
  | zero =>
    cases bytes <;> cases h
    · exact .inr rfl
    · exact .inl rfl
  | succ left ih =>
    cases bytes with
    | nil =>
      cases h
      exact .inr rfl
    | cons b bytes =>
      rw [read] at h
      split_ifs at h
      · cases h
        exact .inl rfl
      · cases tail : read left bytes with
        | error fault' =>
          rw [tail] at h
          cases h
          exact ih tail
        | ok p =>
          rw [tail] at h
          cases h

theorem begins_iff : Begins bytes k ↔ ∃ j ≤ maxBytes - 1, k = j + 1 ∧ Continues bytes j ∧
    ∃ b ∈ bytes[j]?, b.toNat < 128 ∧ (j = maxBytes - 1 → b.toNat ≤ 1) := by
  constructor
  · rintro ⟨pos, le, continued, b, at_, last, bit⟩
    obtain ⟨j, rfl⟩ := Nat.exists_eq_add_of_le' pos
    exact ⟨j, by omega, rfl, continued, b, at_, last, fun h => bit (by rw [h]; rfl)⟩
  · rintro ⟨j, le, rfl, continued, b, at_, last, bit⟩
    have small : j + 1 ≤ maxBytes := by
      rw [maxBytes] at le ⊢
      omega
    exact ⟨Nat.succ_pos j, small, continued, b, at_, last, fun h => bit (by rw [← h]; rfl)⟩

/-- What is read begins with a varint, and every varint is read. -/
theorem read_eq_ok_iff_begins : read maxBytes bytes = .ok (n, rest) ↔
    ∃ k, Begins bytes k ∧ n = groupSum bytes k ∧ rest = bytes.drop k := by
  rw [show maxBytes = maxBytes - 1 + 1 from rfl, read_eq_ok_iff_continues]
  constructor
  · rintro ⟨j, le, continued, ended, eq, left⟩
    exact ⟨j + 1, begins_iff.2 ⟨j, le, rfl, continued, ended⟩, eq, left⟩
  · rintro ⟨k, begins, eq, left⟩
    obtain ⟨j, le, rfl, continued, ended⟩ := begins_iff.1 begins
    exact ⟨j, le, continued, ended, eq, left⟩

theorem Begins.groupSum_lt (h : Begins bytes k) : groupSum bytes k < word64 := by
  obtain ⟨_, -, -, -, bound⟩ := read_eq_ok_iff.1 (read_eq_ok_iff_begins.2 ⟨k, h, rfl, rfl⟩)
  exact bound

end Read

section Pad

variable {n zeros : Nat} {short long bytes : Bytes} {b : UInt8}

theorem toNat_or_continues (small : b.toNat < 128) : (b ||| 0x80).toNat = b.toNat + 128 := by
  have high := Nat.two_pow_add_eq_or_of_lt (i := 7) small 1
  rw [UInt8.toNat_or, Nat.or_comm]
  exact high.symm.trans (Nat.add_comm _ _)

theorem Padded.single (b : UInt8) (zeros : Nat) :
    Padded [b] ((b ||| 0x80) :: (List.replicate zeros 0x80 ++ [0x00])) :=
  ⟨[], b, zeros, rfl, rfl⟩

theorem Padded.eq_of_single (h : Padded [b] long) :
    ∃ zeros, long = (b ||| 0x80) :: (List.replicate zeros 0x80 ++ [0x00]) := by
  obtain ⟨front, last, zeros, eq, rfl⟩ := h
  cases front with
  | nil =>
    cases eq
    exact ⟨zeros, rfl⟩
  | cons => simp at eq

theorem Padded.cons (b : UInt8) (h : Padded short long) : Padded (b :: short) (b :: long) := by
  obtain ⟨front, last, zeros, rfl, rfl⟩ := h
  exact ⟨b :: front, last, zeros, rfl, rfl⟩

theorem Padded.length_lt (h : Padded short long) : short.length < long.length := by
  obtain ⟨front, last, zeros, rfl, rfl⟩ := h
  simp

theorem groups_zeros (zeros : Nat) : Groups (List.replicate zeros 0x80 ++ [0x00]) 0 := by
  induction zeros with
  | zero => exact .last (b := 0x00) (by decide)
  | succ zeros ih => exact .more (b := 0x80) (by decide) ih

/-- Groups of zeros at the end do not count. -/
theorem Padded.groups (h : Padded short long) (groups : Groups short n) : Groups long n := by
  obtain ⟨front, last, zeros, rfl, rfl⟩ := h
  induction front generalizing n with
  | nil =>
    cases groups with
    | last small =>
      have more := toNat_or_continues small
      have groups := Groups.more (b := last ||| 0x80) (by omega) (groups_zeros zeros)
      have value : (last ||| 0x80).toNat % 128 + 128 * 0 = last.toNat := by omega
      rwa [value] at groups
    | more _ rest => cases rest
  | cons b front ih =>
    rw [List.cons_append] at groups ⊢
    generalize tail : front ++ [last] = bytes at groups
    cases groups with
    | last => simp at tail
    | more large rest =>
      rw [← tail] at rest
      exact .more large (ih rest)

/-- Whatever spells a number is what is written for it, with groups of zeros after it or not. -/
theorem Groups.eq_or_padded (h : Groups bytes n) : bytes = ofNat n ∨ Padded (ofNat n) bytes := by
  induction h with
  | @last b small => exact .inl (by rw [ofNat_small small, UInt8.ofNat_toNat])
  | @more b bytes n large rest ih =>
    have top := b.toNat_lt
    by_cases zero : n = 0
    · subst zero
      -- The first group is the last one that counts.
      have others : ∃ zeros, bytes = List.replicate zeros 0x80 ++ [0x00] := by
        rcases ih with rfl | padded
        · exact ⟨0, by rw [ofNat_small (by omega)]; rfl⟩
        · rw [ofNat_small (by omega)] at padded
          obtain ⟨zeros, rfl⟩ := padded.eq_of_single
          exact ⟨zeros + 1, rfl⟩
      have first : UInt8.ofNat (b.toNat % 128) ||| 0x80 = b := by
        have low := toNat_ofNat (n := b.toNat % 128) (by omega)
        refine UInt8.toNat_inj.1 ?_
        rw [toNat_or_continues (by omega), low]
        omega
      obtain ⟨zeros, rfl⟩ := others
      have padded := Padded.single (UInt8.ofNat (b.toNat % 128)) zeros
      rw [first] at padded
      exact .inr (by rwa [Nat.mul_zero, Nat.add_zero, ofNat_small (by omega)])
    · have first : UInt8.ofNat (128 + (b.toNat % 128 + 128 * n) % 128) = b := by
        refine UInt8.toNat_inj.1 ?_
        rw [toNat_ofNat (by omega)]
        omega
      have high : (b.toNat % 128 + 128 * n) / 128 = n := by omega
      rw [ofNat_large (by omega), first, high]
      exact ih.imp (congrArg (b :: ·)) (Padded.cons b)

theorem isVarint_iff_spelled : IsVarint bytes n ↔ Spelled n bytes := by
  rw [IsVarint, Reader.varint_eq_ok_iff]
  constructor
  · rintro ⟨front, spelled, eq, -⟩
    rw [List.append_nil] at eq
    change bytes = front at eq
    rwa [eq]
  · intro spelled
    exact ⟨bytes, spelled, (List.append_nil bytes).symm, (Nat.zero_add _).symm⟩

/-- The spellings of a number are the written one and, up to ten bytes, that one padded. -/
theorem isVarint_iff (bound : n < word64) : IsVarint bytes n ↔
    bytes = ofNat n ∨ Padded (ofNat n) bytes ∧ bytes.length ≤ maxBytes := by
  rw [isVarint_iff_spelled]
  constructor
  · rintro ⟨groups, length, -⟩
    exact groups.eq_or_padded.imp_right fun padded => ⟨padded, length⟩
  · rintro (rfl | ⟨padded, length⟩)
    · exact spelled_ofNat bound
    · exact ⟨padded.groups (spelled_ofNat bound).1, length, bound⟩

theorem isVarint_encode {i : Int} (fits : i < word64) : IsVarint (encode i) (unsigned i) :=
  isVarint_iff_spelled.2 (spelled_ofNat (unsigned_lt_iff.2 fits))

end Pad

section Place

variable {bytes : Bytes} {offset n : Nat} {next : Reader}

theorem Begins.le_length {k : Nat} (h : Begins bytes k) : k ≤ bytes.length := by
  obtain ⟨b, at_, -⟩ := h.ended
  obtain ⟨bound, -⟩ := List.getElem?_eq_some_iff.1 at_
  have := h.pos
  omega

theorem moveTo_drop {k : Nat} (enough : k ≤ (bytes.drop offset).length) :
    (Reader.ofBytesAt bytes offset).moveTo ((bytes.drop offset).drop k) =
      Reader.ofBytesAt bytes (offset + k) := by
  simp only [Reader.moveTo, Reader.ofBytesAt, List.drop_drop, List.length_drop] at enough ⊢
  congr 1
  omega

theorem varint_eq_ok_iff_read {r : Reader} : r.varint = .ok (n, next) ↔
    ∃ rest, read maxBytes r.rest = .ok (n, rest) ∧ next = r.moveTo rest := by
  rw [Reader.varint]
  cases read maxBytes r.rest with
  | error fault => simp [Reader.fail]
  | ok p =>
    obtain ⟨m, rest⟩ := p
    constructor
    · rintro ⟨⟩
      exact ⟨rest, rfl, rfl⟩
    · rintro ⟨rest, ⟨⟩, rfl⟩
      rfl

theorem varint_eq_error_iff_read {r : Reader} {e : DecodeError} : r.varint = .error e ↔
    ∃ fault, read maxBytes r.rest = .error fault ∧ e = ⟨fault, r.offset⟩ := by
  rw [Reader.varint]
  cases read maxBytes r.rest with
  | error fault => simp [Reader.fail, eq_comm]
  | ok p => simp

theorem varint_at_eq_ok_iff : (Reader.ofBytesAt bytes offset).varint = .ok (n, next) ↔
    ∃ k, Begins (bytes.drop offset) k ∧ n = groupSum (bytes.drop offset) k ∧
      next = Reader.ofBytesAt bytes (offset + k) := by
  rw [varint_eq_ok_iff_read]
  constructor
  · rintro ⟨rest, read, rfl⟩
    obtain ⟨k, begins, eq, rfl⟩ := read_eq_ok_iff_begins.1 read
    exact ⟨k, begins, eq, moveTo_drop begins.le_length⟩
  · rintro ⟨k, begins, eq, rfl⟩
    exact ⟨_, read_eq_ok_iff_begins.2 ⟨k, begins, eq, rfl⟩, (moveTo_drop begins.le_length).symm⟩

theorem varint_at_eq_error_iff {e : DecodeError} :
    (Reader.ofBytesAt bytes offset).varint = .error e ↔
      Overflows (bytes.drop offset) ∧ e = ⟨.varintOverflow, offset⟩ ∨
      (¬Overflows (bytes.drop offset) ∧ ∀ k, ¬Begins (bytes.drop offset) k) ∧
        e = ⟨.varintCut, offset⟩ := by
  have overflow : read maxBytes (bytes.drop offset) = .error .varintOverflow ↔
      Overflows (bytes.drop offset) := read_eq_overflow_iff
  rw [varint_eq_error_iff_read]
  change (∃ fault, read maxBytes (bytes.drop offset) = .error fault ∧ e = ⟨fault, offset⟩) ↔ _
  constructor
  · rintro ⟨fault, failed, rfl⟩
    rcases read_error_cases failed with rfl | rfl
    · exact .inl ⟨overflow.1 failed, rfl⟩
    · refine .inr ⟨⟨fun overflows => ?_, fun k begins => ?_⟩, rfl⟩
      · cases failed.symm.trans (overflow.2 overflows)
      · cases failed.symm.trans (read_eq_ok_iff_begins.2 ⟨k, begins, rfl, rfl⟩)
  · rintro (⟨overflows, rfl⟩ | ⟨⟨fits, endless⟩, rfl⟩)
    · exact ⟨_, overflow.2 overflows, rfl⟩
    · refine ⟨.varintCut, ?_, rfl⟩
      cases read : read maxBytes (bytes.drop offset) with
      | ok p =>
        obtain ⟨k, begins, -⟩ := read_eq_ok_iff_begins.1 read
        exact absurd begins (endless k)
      | error fault =>
        rcases read_error_cases read with rfl | rfl
        · exact absurd (overflow.1 read) fits
        · rfl

end Place

/-- Reading and writing varints, exactly. At any place of any bytes, what is read is the number of
the groups that stand there, if they end in time; a tenth byte without room for its bits is one
error, the end of the bytes the other. What is written is read as the number in 64 bits, and refused
if it needs more; it is the shortest of the spellings of a number, all others being that one with
groups of zeros after it. -/
theorem codec_exact (bytes : Bytes) (offset : Nat) (i : Int) :
    ((∀ n next, (Reader.ofBytesAt bytes offset).varint = .ok (n, next) ↔
        ∃ k, Begins (bytes.drop offset) k ∧ n = groupSum (bytes.drop offset) k ∧
          next = Reader.ofBytesAt bytes (offset + k)) ∧
      (∀ k, Begins (bytes.drop offset) k → groupSum (bytes.drop offset) k < word64) ∧
      (∀ e, (Reader.ofBytesAt bytes offset).varint = .error e ↔
        Overflows (bytes.drop offset) ∧ e = ⟨.varintOverflow, offset⟩ ∨
        (¬Overflows (bytes.drop offset) ∧ ∀ k, ¬Begins (bytes.drop offset) k) ∧
          e = ⟨.varintCut, offset⟩) ∧
      DecodeError.message ⟨.varintOverflow, offset⟩ =
        ("Varint overflows 64 bits" : Text) ++ " at offset " ++ Text.ofNat offset ∧
      DecodeError.message ⟨.varintCut, offset⟩ =
        ("Unexpected end of data while reading varint" : Text) ++ " at offset " ++
          Text.ofNat offset) ∧
    (i < word64 → ∃ n, IsVarint (encode i) n ∧ (n : Int) = (if i < 0 then i % word64 else i) ∧
      (signed n = i ↔ -2 ^ 63 ≤ i ∧ i < 2 ^ 63)) ∧
    (word64 ≤ i → (Reader.ofBytes (encode i)).varint = .error ⟨.varintOverflow, 0⟩) ∧
    (0 ≤ i → i < word64 →
      (IsVarint bytes i.toNat ↔
        bytes = encode i ∨ Padded (encode i) bytes ∧ bytes.length ≤ maxBytes) ∧
      (IsVarint bytes i.toNat → bytes ≠ encode i → (encode i).length < bytes.length)) := by
  refine ⟨⟨fun n next => varint_at_eq_ok_iff, fun k => Begins.groupSum_lt,
    fun e => varint_at_eq_error_iff, rfl, rfl⟩, fun fits => ?_, fun large => ?_,
    fun nonneg fits => ?_⟩
  · have own : signed (unsigned i) = i ↔ -2 ^ 63 ≤ i ∧ i < 2 ^ 63 := by
      rw [signed_unsigned, signed_eq_self_iff]
      norm_num
    refine ⟨unsigned i, isVarint_encode fits, ?_, own⟩
    rw [unsigned_eq_emod fits]
    split_ifs with negative
    · rfl
    · exact Int.emod_eq_of_lt (Int.not_lt.1 negative) fits
  · have overflows := Reader.varint_ofNat_overflow (mt unsigned_lt_iff.1 (Int.not_lt.2 large)) 0 []
    rwa [List.append_nil] at overflows
  · have written : encode i = ofNat i.toNat := by
      rw [encode, unsigned, if_neg (Int.not_lt.2 nonneg)]
    have bound : i.toNat < word64 := (Int.toNat_lt nonneg).2 fits
    rw [written, isVarint_iff bound]
    refine ⟨Iff.rfl, fun spelled other => ?_⟩
    exact (spelled.resolve_left other).1.length_lt

/-- A padded five behind another byte, and the integers at the ends of what 64 bits hold. -/
theorem codec_exact_padded :
    (Reader.ofBytesAt [0x00, 0x85, 0x80, 0x00] 1).varint =
        .ok (5, Reader.ofBytesAt [0x00, 0x85, 0x80, 0x00] 4) ∧
      IsVarint [0x85, 0x80, 0x00] 5 ∧ (encode 5).length < 3 ∧
      (∃ n, IsVarint (encode (-2 ^ 63)) n ∧ (n : Int) = 2 ^ 63 ∧ signed n = -2 ^ 63) ∧
      (Reader.ofBytes (encode (2 ^ 64))).varint = .error ⟨.varintOverflow, 0⟩ := by
  obtain ⟨⟨reads, -⟩, -⟩ := codec_exact [0x00, 0x85, 0x80, 0x00] 1 0
  obtain ⟨-, -, -, spelled⟩ := codec_exact [0x85, 0x80, 0x00] 0 5
  obtain ⟨spellings, shortest⟩ := spelled (by decide) (by decide)
  obtain ⟨-, lowest, -⟩ := codec_exact [] 0 (-2 ^ 63)
  obtain ⟨-, -, refused, -⟩ := codec_exact [] 0 (2 ^ 64)
  have short : encode 5 = [0x05] := by cbv
  have padded : Padded (encode 5) [0x85, 0x80, 0x00] := short ▸ ⟨[], 0x05, 1, rfl, rfl⟩
  have five : IsVarint [0x85, 0x80, 0x00] 5 := spellings.2 (.inr ⟨padded, by decide⟩)
  obtain ⟨n, varint, value, back⟩ := lowest (by decide)
  refine ⟨(reads _ _).2 ⟨3, ⟨by decide, by decide, by decide, by decide⟩, by decide, rfl⟩, five,
    shortest five (short ▸ by decide), ⟨n, varint, value, back.2 (by decide)⟩, refused (by decide)⟩

end Varint

end SchemaPlugin.Wire
