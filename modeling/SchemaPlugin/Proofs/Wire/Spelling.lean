import SchemaPlugin.Proofs.Basic
import SchemaPlugin.Wire.Fields
import SchemaPlugin.Wire.Writer

/-!
How numbers, tags, values and whole fields are spelled in bytes. A number has many spellings, as
groups of zeros may follow its last group; the readers take exactly the spellings, and leave
whatever follows.
-/

namespace SchemaPlugin.Wire

namespace Varint

/-- The bytes are groups of seven bits that make up the number, the lowest first. -/
inductive Groups : Bytes → Nat → Prop
  | last {b : UInt8} (h : b.toNat < 128) : Groups [b] b.toNat
  | more {b : UInt8} {bytes : Bytes} {n : Nat} (h : 128 ≤ b.toNat) (rest : Groups bytes n) :
      Groups (b :: bytes) (b.toNat % 128 + 128 * n)

/-- A varint: at most ten bytes that spell a number of 64 bits. -/
def Spelled (n : Nat) (bytes : Bytes) : Prop :=
  Groups bytes n ∧ bytes.length ≤ maxBytes ∧ n < word64

/-- The numbers below this one can be read from `left` bytes: the last byte has room for one bit. -/
def limit : (left : Nat) → Nat
  | 0 => 0
  | 1 => 2
  | left + 2 => 128 * limit (left + 1)

theorem limit_maxBytes : limit maxBytes = word64 := by decide

theorem two_le_limit (left : Nat) : 2 ≤ limit (left + 1) := by
  induction left with
  | zero => decide
  | succ left ih =>
    rw [limit]
    omega

theorem Groups.length_pos {bytes : Bytes} {n : Nat} (h : Groups bytes n) : 0 < bytes.length := by
  cases h <;> simp

theorem Spelled.ne_nil {bytes : Bytes} {n : Nat} (h : Spelled n bytes) : bytes ≠ [] :=
  List.length_pos_iff.1 h.1.length_pos

/-- The last byte that may be read has room for one bit, so nothing follows it. -/
theorem read_one (b : UInt8) (bytes : Bytes) :
    read 1 (b :: bytes) = if b.toNat < 2 then .ok (b.toNat, bytes) else .error .varintOverflow := by
  rw [read]
  split_ifs <;> first | rfl | omega

theorem read_succ (left : Nat) (b : UInt8) (bytes : Bytes) :
    read (left + 2) (b :: bytes) = if b.toNat < 128 then .ok (b.toNat, bytes) else do
      let (high, rest) ← read (left + 1) bytes
      return (b.toNat % 128 + 128 * high, rest) := by
  rw [read, if_neg (by omega)]

theorem read_groups {left n : Nat} {front : Bytes} (h : Groups front n)
    (length : front.length ≤ left) (bound : n < limit left) (rest : Bytes) :
    read left (front ++ rest) = .ok (n, rest) := by
  induction h generalizing left with
  | last small =>
    match left, length with
    | 1, _ => exact (read_one _ rest).trans (if_pos bound)
    | left + 2, _ => exact (read_succ left _ rest).trans (if_pos small)
  | @more b bytes n large tail ih =>
    have := tail.length_pos
    match left, length with
    | 1, length =>
      rw [List.length_cons] at length
      omega
    | left + 2, length =>
      rw [List.length_cons] at length
      rw [limit] at bound
      rw [List.cons_append, read_succ, if_neg (by omega), ih (by omega) (by omega)]
      rfl

theorem groups_of_read {left n : Nat} {bytes rest : Bytes} (h : read left bytes = .ok (n, rest)) :
    ∃ front, bytes = front ++ rest ∧ Groups front n ∧ front.length ≤ left ∧ n < limit left := by
  induction left using limit.induct generalizing bytes n with
  | case1 => cases bytes <;> simp [read] at h
  | case2 =>
    cases bytes with
    | nil => simp [read] at h
    | cons b bytes =>
      rw [read_one] at h
      split_ifs at h with small
      cases h
      exact ⟨[b], rfl, .last (by omega), by simp, small⟩
  | case3 left ih =>
    cases bytes with
    | nil => simp [read] at h
    | cons b bytes =>
      rw [read_succ] at h
      split_ifs at h with small
      · cases h
        have := two_le_limit left
        exact ⟨[b], rfl, .last small, by simp, by rw [limit]; omega⟩
      · obtain ⟨⟨high, tail⟩, hr, eq⟩ := bind_eq_ok_iff.1 h
        cases eq
        obtain ⟨front, rfl, groups, length, bound⟩ := ih hr
        exact ⟨b :: front, rfl, .more (by omega) groups, by simpa using length,
          by rw [limit]; omega⟩

theorem read_eq_ok_iff {n : Nat} {bytes rest : Bytes} :
    read maxBytes bytes = .ok (n, rest) ↔ ∃ front, bytes = front ++ rest ∧ Spelled n front := by
  simp only [Spelled, ← limit_maxBytes]
  constructor
  · exact groups_of_read
  · rintro ⟨front, rfl, groups, length, bound⟩
    exact read_groups groups length bound rest

theorem ofNat_small {n : Nat} (h : n < 128) : ofNat n = [.ofNat n] := by
  rw [ofNat, if_pos h]

theorem ofNat_large {n : Nat} (h : 128 ≤ n) :
    ofNat n = .ofNat (128 + n % 128) :: ofNat (n / 128) := by
  rw [ofNat, if_neg (by omega)]

theorem toNat_ofNat {n : Nat} (h : n < 256) : (UInt8.ofNat n).toNat = n := by
  rw [UInt8.toNat_ofNat', Nat.mod_eq_of_lt h]

/-- A number that is written reads back if it fits, and otherwise the varint is too long. -/
theorem read_ofNat (left n : Nat) (rest : Bytes) :
    read (left + 1) (ofNat n ++ rest) =
      if n < limit (left + 1) then .ok (n, rest) else .error .varintOverflow := by
  induction left generalizing n with
  | zero =>
    by_cases small : n < 128
    · rw [ofNat_small small, List.singleton_append, read_one, toNat_ofNat (by omega)]
      rfl
    · rw [ofNat_large (by omega), List.cons_append, read_one, toNat_ofNat (by omega),
        if_neg (by omega), if_neg (by simp only [limit]; omega)]
  | succ left ih =>
    have := two_le_limit left
    by_cases small : n < 128
    · rw [ofNat_small small, List.singleton_append, read_succ, toNat_ofNat (by omega),
        if_pos small, if_pos (by rw [limit]; omega)]
    · rw [ofNat_large (by omega), List.cons_append, read_succ, toNat_ofNat (by omega),
        if_neg (by omega), ih, limit]
      by_cases fits : n / 128 < limit (left + 1)
      · rw [if_pos fits, if_pos (by omega), ok_bind]
        have whole : (128 + n % 128) % 128 + 128 * (n / 128) = n := by omega
        exact congrArg (fun n => Except.ok (n, rest)) whole
      · rw [if_neg fits, if_neg (by omega), error_bind]

theorem spelled_ofNat {n : Nat} (h : n < word64) : Spelled n (ofNat n) := by
  have read := read_ofNat 9 n []
  rw [show 9 + 1 = maxBytes from rfl, limit_maxBytes, if_pos h] at read
  obtain ⟨front, eq, spelled⟩ := read_eq_ok_iff.1 read
  rwa [List.append_cancel_right eq]

theorem signed_unsigned (i : Int) : signed (unsigned i) = signed i := by
  have same : (unsigned i : Int) % word64 = i % word64 := by
    simp only [unsigned, word64]
    split_ifs <;> omega
  rw [signed, same, signed]

theorem unsigned_eq_emod {i : Int} (h : i < word64) : (unsigned i : Int) = i % word64 := by
  simp only [unsigned, word64] at *
  split_ifs <;> omega

theorem signed_eq_self_iff {i : Int} :
    signed i = i ↔ -0x8000000000000000 ≤ i ∧ i < 0x8000000000000000 := by
  simp only [signed, word64]
  split_ifs <;> omega

theorem unsigned_lt_iff {i : Int} : unsigned i < word64 ↔ i < word64 := by
  rw [unsigned, word64]
  split_ifs <;> omega

end Varint

namespace Reader

variable {r mid next : Reader} {front back : Bytes}

/-- `next` is the reader that has moved past the bytes `front`. -/
def Passes (r : Reader) (front : Bytes) (next : Reader) : Prop :=
  r.rest = front ++ next.rest ∧ next.offset = r.offset + front.length

theorem Passes.trans (h : r.Passes front mid) (h' : mid.Passes back next) :
    r.Passes (front ++ back) next := by
  refine ⟨by rw [h.1, h'.1, List.append_assoc], ?_⟩
  rw [h'.2, h.2, List.length_append]
  omega

theorem Passes.eq (h : r.Passes front next) : next = ⟨r.offset + front.length, next.rest⟩ := by
  rw [← h.2]

theorem varint_eq_ok_iff {n : Nat} :
    r.varint = .ok (n, next) ↔ ∃ front, Varint.Spelled n front ∧ r.Passes front next := by
  constructor
  · intro h
    rw [varint] at h
    split at h
    · rename_i m rest hr
      obtain ⟨rfl, rfl⟩ : _ ∧ _ := by simpa using h
      obtain ⟨front, eq, spelled⟩ := Varint.read_eq_ok_iff.1 hr
      refine ⟨front, spelled, eq, ?_⟩
      simp [moveTo, eq]
    · simp [fail] at h
  · rintro ⟨front, spelled, passes⟩
    have read : Varint.read Varint.maxBytes r.rest = .ok (n, next.rest) :=
      Varint.read_eq_ok_iff.2 ⟨front, passes.1, spelled⟩
    have moved : r.moveTo next.rest = next := by
      rw [passes.eq, moveTo, passes.1, List.length_append, Nat.add_sub_cancel]
    rw [varint, read, ← moved]
    rfl

/-- A number that does not fit is written in full, and not read. -/
theorem varint_ofNat_overflow {n : Nat} (large : ¬n < word64) (offset : Nat) (rest : Bytes) :
    varint ⟨offset, Varint.ofNat n ++ rest⟩ = .error ⟨.varintOverflow, offset⟩ := by
  have read := Varint.read_ofNat 9 n rest
  rw [show 9 + 1 = Varint.maxBytes from rfl, Varint.limit_maxBytes, if_neg large] at read
  rw [varint, read]
  rfl

theorem take_eq_ok_iff {value : Sized} {n : Nat} {bytes : Bytes} :
    r.take value n = .ok (bytes, next) ↔ bytes.length = n ∧ r.Passes bytes next := by
  rw [take]
  constructor
  · intro h
    split_ifs at h with short
    · simp [fail] at h
    · obtain ⟨rfl, rfl⟩ : _ ∧ _ := by simpa using h
      have length : (r.rest.take n).length = n := List.length_take_of_le (by omega)
      exact ⟨length, (List.take_append_drop n r.rest).symm, by rw [length]; rfl⟩
  · rintro ⟨rfl, passes⟩
    rw [if_neg (by simp [passes.1]), advance, passes.1, List.take_left, List.drop_left, ← passes.2]

end Reader

/-- The bytes of a tag. -/
def Tag.Spelled (t : Tag) (bytes : Bytes) : Prop :=
  0 < t.number ∧ Varint.Spelled (t.number * 8 + t.wireType.number) bytes

theorem WireType.ofNumber?_eq_some_iff {n : Nat} {w : WireType} :
    ofNumber? n = some w ↔ n = w.number := by
  rw [ofNumber?]
  cases w <;> split_ifs <;> simp [number] <;> omega

theorem WireType.number_lt (w : WireType) : w.number < 8 := by
  cases w <;> decide

theorem Reader.tag_eq_ok_iff {r next : Reader} {t : Tag} :
    r.tag = .ok (t, next) ↔ ∃ front, t.Spelled front ∧ r.Passes front next := by
  constructor
  · intro h
    obtain ⟨⟨n, mid⟩, hv, h⟩ := bind_eq_ok_iff.1 h
    obtain ⟨front, spelled, passes⟩ := varint_eq_ok_iff.1 hv
    simp only at h
    split_ifs at h with zero
    · simp [fail] at h
    · split at h
      · rename_i w hw
        obtain ⟨rfl, rfl⟩ : _ ∧ _ := by simpa using h
        have split : n / 8 * 8 + w.number = n := by
          have := WireType.ofNumber?_eq_some_iff.1 hw
          omega
        exact ⟨front, ⟨Nat.pos_of_ne_zero zero, split.symm ▸ spelled⟩, passes⟩
      · simp [fail] at h
  · rintro ⟨front, ⟨pos, spelled⟩, passes⟩
    have small := t.wireType.number_lt
    have high : (t.number * 8 + t.wireType.number) / 8 = t.number := by omega
    have low : (t.number * 8 + t.wireType.number) % 8 = t.wireType.number := by omega
    rw [tag, varint_eq_ok_iff.2 ⟨front, spelled, passes⟩, ok_bind]
    simp only [high, low, WireType.ofNumber?_eq_some_iff.2 rfl]
    rw [if_neg (by omega)]

/-- The bytes of a value: a varint, a fixed number of bytes, or bytes after their length. -/
inductive Value.Spelled : Value → Bytes → Prop
  | varint {n : Nat} {bytes : Bytes} (h : Varint.Spelled n bytes) : Spelled (.varint n) bytes
  | fixed64 {bytes : Bytes} (h : bytes.length = 8) : Spelled (.fixed64 (littleEndian bytes)) bytes
  | lengthDelimited {length payload : Bytes} (h : Varint.Spelled payload.length length) :
      Spelled (.lengthDelimited payload) (length ++ payload)
  | fixed32 {bytes : Bytes} (h : bytes.length = 4) : Spelled (.fixed32 (littleEndian bytes)) bytes

theorem Value.Spelled.ne_nil {value : Value} {bytes : Bytes} (h : value.Spelled bytes) :
    bytes ≠ [] := by
  cases h with
  | varint h => exact h.ne_nil
  | fixed64 h | fixed32 h => exact List.ne_nil_of_length_eq_add_one h
  | lengthDelimited h => exact List.append_ne_nil_of_left_ne_nil h.ne_nil _

theorem Reader.delimited_eq_ok_iff {r next : Reader} {payload : Bytes} :
    r.delimited = .ok (payload, next) ↔
      ∃ length, Varint.Spelled payload.length length ∧ r.Passes (length ++ payload) next := by
  constructor
  · intro h
    obtain ⟨⟨n, mid⟩, hv, h⟩ := bind_eq_ok_iff.1 h
    obtain ⟨length, spelled, passes⟩ := varint_eq_ok_iff.1 hv
    obtain ⟨rfl, passes'⟩ := take_eq_ok_iff.1 h
    exact ⟨length, spelled, passes.trans passes'⟩
  · rintro ⟨length, spelled, passes⟩
    have passes' := passes.1.trans (List.append_assoc _ _ _)
    refine bind_eq_ok_iff.2 ⟨(payload.length, ⟨r.offset + length.length, payload ++ next.rest⟩),
      varint_eq_ok_iff.2 ⟨length, spelled, passes', rfl⟩, take_eq_ok_iff.2 ⟨rfl, rfl, ?_⟩⟩
    rw [passes.2, List.length_append]
    exact (Nat.add_assoc _ _ _).symm

theorem Reader.value_eq_ok_iff {r next : Reader} {w : WireType} {v : Value} :
    r.value w = .ok (v, next) ↔
      v.wireType = w ∧ ∃ front, v.Spelled front ∧ r.Passes front next := by
  constructor
  · intro h
    cases w with
    | varint =>
      obtain ⟨⟨n, mid⟩, hv, h⟩ := bind_eq_ok_iff.1 h
      cases h
      obtain ⟨front, spelled, passes⟩ := varint_eq_ok_iff.1 hv
      exact ⟨rfl, front, .varint spelled, passes⟩
    | fixed64 =>
      obtain ⟨⟨bytes, mid⟩, ht, h⟩ := bind_eq_ok_iff.1 h
      cases h
      obtain ⟨length, passes⟩ := take_eq_ok_iff.1 ht
      exact ⟨rfl, bytes, .fixed64 length, passes⟩
    | lengthDelimited =>
      obtain ⟨⟨payload, mid⟩, hd, h⟩ := bind_eq_ok_iff.1 h
      cases h
      obtain ⟨length, spelled, passes⟩ := delimited_eq_ok_iff.1 hd
      exact ⟨rfl, length ++ payload, .lengthDelimited spelled, passes⟩
    | fixed32 =>
      obtain ⟨⟨bytes, mid⟩, ht, h⟩ := bind_eq_ok_iff.1 h
      cases h
      obtain ⟨length, passes⟩ := take_eq_ok_iff.1 ht
      exact ⟨rfl, bytes, .fixed32 length, passes⟩
  · rintro ⟨rfl, front, spelled, passes⟩
    cases spelled with
    | varint h => exact bind_eq_ok_iff.2 ⟨_, varint_eq_ok_iff.2 ⟨front, h, passes⟩, rfl⟩
    | fixed64 h => exact bind_eq_ok_iff.2 ⟨_, take_eq_ok_iff.2 ⟨h, passes⟩, rfl⟩
    | lengthDelimited h =>
      exact bind_eq_ok_iff.2 ⟨_, delimited_eq_ok_iff.2 ⟨_, h, passes⟩, rfl⟩
    | fixed32 h => exact bind_eq_ok_iff.2 ⟨_, take_eq_ok_iff.2 ⟨h, passes⟩, rfl⟩

/-- The bytes of a whole field: its tag and its value. -/
def WholeField (number : Nat) (value : Value) (bytes : Bytes) : Prop :=
  ∃ front back, Tag.Spelled ⟨number, value.wireType⟩ front ∧ value.Spelled back ∧
    bytes = front ++ back

end SchemaPlugin.Wire
