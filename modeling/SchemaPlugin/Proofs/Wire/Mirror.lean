import Mathlib
import SchemaPlugin.Proofs.Wire.ReadBack
import SchemaPlugin.Proofs.Wire.ReaderSession

/-!
A reader as the mirror of a writer. Operations of a writer append items, and each item tells its own
end: the read that mirrors it stops where the next item begins, whatever stands before and after.
-/

namespace SchemaPlugin.Wire

theorem length_bytesLE (width n : Nat) : (bytesLE width n).length = width := by
  induction width generalizing n with
  | zero => rfl
  | succ width ih => rw [bytesLE, List.length_cons, ih]

theorem littleEndian_bytesLE (width n : Nat) :
    littleEndian (bytesLE width n) = n % 256 ^ width := by
  induction width generalizing n with
  | zero => rw [bytesLE, littleEndian, Nat.pow_zero, Nat.mod_one]
  | succ width ih =>
    rw [bytesLE, littleEndian, ih, Nat.pow_succ', Nat.mod_mul, UInt8.toNat_ofNat']

namespace Reader

variable (i : Int) (offset : Nat) (rest : Bytes)

theorem take_bytesLE (value : Sized) (width n : Nat) :
    take ⟨offset, bytesLE width n ++ rest⟩ value width =
      .ok (bytesLE width n, ⟨offset + (bytesLE width n).length, rest⟩) :=
  take_eq_ok_iff.2 ⟨length_bytesLE width n, rfl, rfl⟩

theorem fixed32_written :
    fixed32 ⟨offset, fixed32Bytes i ++ rest⟩ =
      .ok ((i % 0x100000000).toNat, ⟨offset + (fixed32Bytes i).length, rest⟩) := by
  have small : (i % 0x100000000).toNat < 256 ^ 4 := by omega
  rw [fixed32, fixed32Bytes, take_bytesLE, ok_bind]
  dsimp only
  rw [littleEndian_bytesLE, Nat.mod_eq_of_lt small, pure_eq_ok]

theorem fixed64_written :
    fixed64 ⟨offset, fixed64Bytes i ++ rest⟩ =
      .ok ((i % 0x10000000000000000).toNat, ⟨offset + (fixed64Bytes i).length, rest⟩) := by
  have small : (i % 0x10000000000000000).toNat < 256 ^ 8 := by omega
  rw [fixed64, fixed64Bytes, take_bytesLE, ok_bind]
  dsimp only
  rw [littleEndian_bytesLE, Nat.mod_eq_of_lt small, pure_eq_ok]

theorem tag_written {number : Nat} (valid : Fields.ValidNumber number) (type : WireType) :
    tag ⟨offset, Tag.encode ⟨number, type⟩ ++ rest⟩ =
      .ok (⟨number, type⟩, ⟨offset + (Tag.encode ⟨number, type⟩).length, rest⟩) :=
  tag_eq_ok_iff.2 ⟨_, Fields.spelled_tag valid, rfl, rfl⟩

theorem varint_written {i : Int} (fits : i < word64) :
    varint ⟨offset, Varint.encode i ++ rest⟩ =
      .ok (Varint.unsigned i, ⟨offset + (Varint.encode i).length, rest⟩) :=
  varint_eq_ok_iff.2 ⟨_, Varint.spelled_ofNat (Varint.unsigned_lt_iff.2 fits), rfl, rfl⟩

theorem delimited_written {payload : Bytes} (size : Addressable payload) :
    delimited ⟨offset, delimitedBytes payload ++ rest⟩ =
      .ok (payload, ⟨offset + (delimitedBytes payload).length, rest⟩) :=
  delimited_eq_ok_iff.2 ⟨_, Varint.spelled_ofNat size, rfl, rfl⟩

end Reader

/-- Three bits below a number that leaves them free are added to it. -/
theorem bitsOr_low (number : Nat) {low : Nat} (h : low < 8) :
    bitsOr (number * 8) low = (number * 8 + low : Nat) := by
  have sum := Nat.two_pow_add_eq_or_of_lt (i := 3) h number
  rw [Nat.mul_comm, sum]
  rfl

theorem Tag.encode?_eq_ok {number : Nat} (pos : 0 < number) (type : WireType) :
    Tag.encode? number type.number = .ok (Tag.encode ⟨number, type⟩) := by
  have sum := bitsOr_low number type.number_lt
  rw [Tag.encode?, if_neg (by omega), Int.toNat_natCast, sum]
  rfl

/-- What is appended at once, and read back at once. -/
inductive Item
  | tag (number wireType : Int)
  | varint (i : Int)
  | fixed32 (i : Int)
  | fixed64 (i : Int)
  | bytes (payload : Bytes)
  | text (t : Text)
  | message (payload : Bytes)

namespace Item

def written : Item → Except WriteError Bytes
  | .tag number wireType => Writer.tagBytes number wireType
  | .varint i => .ok (Varint.encode i)
  | .fixed32 i => .ok (fixed32Bytes i)
  | .fixed64 i => .ok (fixed64Bytes i)
  | .bytes payload | .message payload => .ok (delimitedBytes payload)
  | .text t => Writer.textBytes t

/-- The operation that reads an item back, with its answer. A varint is read without a sign, or with
one if the number has 64 bits with its sign. -/
inductive ReadsAs : Item → ReaderSession.Operation × ReaderSession.Answer → Prop
  | tag {number : Nat} (valid : 0 < number ∧ number < 2 ^ 61) (type : WireType) :
      ReadsAs (.tag number type.number) (.tag, .tag ⟨number, type⟩)
  | varint {i : Int} (fits : i < 2 ^ 64) : ReadsAs (.varint i) (.varint, .number (i % 2 ^ 64))
  | int64 {i : Int} (low : -2 ^ 63 ≤ i) (high : i < 2 ^ 63) :
      ReadsAs (.varint i) (.int64, .number i)
  | fixed32 (i : Int) : ReadsAs (.fixed32 i) (.fixed32, .number (i % 2 ^ 32))
  | fixed64 (i : Int) : ReadsAs (.fixed64 i) (.fixed64, .number (i % 2 ^ 64))
  | bytes (payload : Bytes) : ReadsAs (.bytes payload) (.bytes, .bytes payload)
  | text (t : Text) : ReadsAs (.text t) (.text, .text t)
  | message (payload : Bytes) : ReadsAs (.message payload) (.message, .bytes payload)

end Item

theorem ReaderSession.read_eq_ok {α : Type} (read : Reader → Except DecodeError (α × Reader))
    {r next : Reader} {a : α} {answer : α → Answer} {expected : Answer}
    (h : read r = .ok (a, next)) (eq : answer a = expected) (ended : Bool) :
    ReaderSession.read ⟨r, ended⟩ read answer = (.ok expected, ⟨next, ended⟩) := by
  rw [ReaderSession.read, h, ← eq]

namespace Item

open ReaderSession (Answer read_eq_ok)

theorem written_tag {number : Nat} (pos : 0 < number) (type : WireType) :
    (Item.tag number type.number).written = .ok (Tag.encode ⟨number, type⟩) := by
  rw [written, Writer.tagBytes, Tag.encode?_eq_ok pos]
  rfl

theorem textBytes_eq_ok {t : Text} {bytes : Bytes} (h : Writer.textBytes t = .ok bytes) :
    ∃ payload, Utf8.encode t = .ok payload ∧ bytes = delimitedBytes payload := by
  rw [Writer.textBytes] at h
  cases encoded : Utf8.encode t with
  | error e => simp [encoded] at h
  | ok payload =>
    rw [encoded] at h
    cases h
    exact ⟨payload, rfl, rfl⟩

/-- An item is read back wherever it stands. -/
theorem ReadsAs.perform {item : Item} {read : ReaderSession.Operation × Answer} {bytes : Bytes}
    (h : item.ReadsAs read) (written : item.written = .ok bytes) (size : Addressable bytes)
    (offset : Nat) (rest : Bytes) (ended : Bool) :
    ReaderSession.perform ⟨⟨offset, bytes ++ rest⟩, ended⟩ read.1 =
      (.ok read.2, ⟨⟨offset + bytes.length, rest⟩, ended⟩) := by
  cases h with
  | tag valid type =>
    rw [written_tag valid.1] at written
    cases written
    rw [ReaderSession.perform]
    exact read_eq_ok Reader.tag (Reader.tag_written offset rest valid type) rfl ended
  | @varint i fits =>
    cases written
    have value : (Varint.unsigned i : Int) = i % 2 ^ 64 := Varint.unsigned_eq_emod fits
    rw [ReaderSession.perform]
    exact read_eq_ok Reader.varint (Reader.varint_written offset rest fits)
      (congrArg Answer.number value) ended
  | @int64 i low high =>
    cases written
    have fits : i < word64 := by
      rw [word64]
      omega
    have value : Varint.signed (Varint.unsigned i) = i := by
      rw [Varint.signed_unsigned, Varint.signed_eq_self_iff.2 (by omega)]
    rw [ReaderSession.perform]
    exact read_eq_ok Reader.varint (Reader.varint_written offset rest fits)
      (congrArg Answer.number value) ended
  | fixed32 i =>
    cases written
    have value : ((i % 0x100000000).toNat : Int) = i % 2 ^ 32 := by omega
    rw [ReaderSession.perform]
    exact read_eq_ok Reader.fixed32 (Reader.fixed32_written i offset rest)
      (congrArg Answer.number value) ended
  | fixed64 i =>
    cases written
    have value : ((i % 0x10000000000000000).toNat : Int) = i % 2 ^ 64 := by omega
    rw [ReaderSession.perform]
    exact read_eq_ok Reader.fixed64 (Reader.fixed64_written i offset rest)
      (congrArg Answer.number value) ended
  | bytes payload | message payload =>
    cases written
    have read := Reader.delimited_written offset rest size.right
    rw [ReaderSession.perform]
    exact read_eq_ok Reader.delimited read rfl ended
  | text t =>
    obtain ⟨payload, encoded, rfl⟩ := textBytes_eq_ok written
    have read := Reader.delimited_written offset rest size.right
    have decoded : decodeText payload offset = .ok t :=
      decodeText_eq_ok_iff.2 (Utf8.decode_of_encode encoded)
    rw [ReaderSession.perform, Reader.text, read]
    dsimp only
    rw [decoded]
    rfl

/-- The bytes of items, one after the other. -/
inductive Appended : List Item → Bytes → Prop
  | nil : Appended [] []
  | cons {item : Item} {items : List Item} {front back : Bytes} (head : item.written = .ok front)
      (tail : Appended items back) : Appended (item :: items) (front ++ back)

theorem Appended.append {items items' : List Item} {front back : Bytes} (h : Appended items front)
    (h' : Appended items' back) : Appended (items ++ items') (front ++ back) := by
  induction h with
  | nil => exact h'
  | cons head _ ih =>
    rw [List.append_assoc]
    exact .cons head ih

/-- The reads of the items, in order, take one item after the other. -/
theorem Appended.run {items : List Item} {bytes : Bytes} (h : Appended items bytes)
    (size : Addressable bytes) {reads : List (ReaderSession.Operation × Answer)}
    (mirrored : List.Forall₂ ReadsAs items reads) (offset : Nat) (rest : Bytes) (ended : Bool) :
    ReaderSession.run ⟨⟨offset, bytes ++ rest⟩, ended⟩ (reads.map Prod.fst) =
      (reads.map fun read => .ok read.2, ⟨⟨offset + bytes.length, rest⟩, ended⟩) := by
  induction h generalizing reads offset with
  | nil =>
    cases mirrored
    rfl
  | @cons item items front back head _ ih =>
    cases mirrored with
    | @cons _ read _ reads first others =>
      rw [List.map_cons, ReaderSession.run, List.append_assoc,
        first.perform head size.left offset (back ++ rest) ended]
      dsimp only
      rw [ih size.right others (offset + front.length), List.length_append, Nat.add_assoc]
      rfl

end Item

namespace Writer

/-- What an operation appends: one item, or a tag and the value of the field. -/
def Operation.items : Operation → List Item
  | .tag number wireType => [.tag number wireType]
  | .varint i => [.varint i]
  | .fixed32 i => [.fixed32 i]
  | .fixed64 i => [.fixed64 i]
  | .bytes payload => [.bytes payload]
  | .text t => [.text t]
  | .message payload => [.message payload]
  | .varintField number i => [.tag number 0, .varint i]
  | .textField number t => [.tag number 2, .text t]
  | .messageField number payload => [.tag number 2, .message payload]

theorem pieces_eq (op : Operation) : pieces op = op.items.map Item.written := by
  cases op <;> rfl

/-- Performs operations one after the other, as long as they succeed. -/
def run : Writer → List Operation → Except WriteError Writer
  | w, [] => .ok w
  | w, op :: ops =>
    match w.perform op with
    | (.ok (), next) => run next ops
    | (.error e, _) => .error e

theorem appended_of_append {w w' : Writer} {items : List Item}
    (h : append w (items.map Item.written) = (.ok (), w')) :
    ∃ bytes, Item.Appended items bytes ∧ w' = w ++ bytes := by
  induction items generalizing w with
  | nil =>
    cases h
    exact ⟨[], .nil, (List.append_nil _).symm⟩
  | cons item items ih =>
    rw [List.map_cons] at h
    cases head : item.written with
    | error e =>
      rw [head] at h
      cases h
    | ok front =>
      rw [head] at h
      obtain ⟨back, tail, rfl⟩ := ih h
      exact ⟨front ++ back, .cons head tail, List.append_assoc w front back⟩

theorem appended_of_run {w w' : Writer} {ops : List Operation} (h : run w ops = .ok w') :
    ∃ bytes, Item.Appended (ops.flatMap Operation.items) bytes ∧ w' = w ++ bytes := by
  induction ops generalizing w with
  | nil =>
    cases h
    exact ⟨[], .nil, (List.append_nil _).symm⟩
  | cons op ops ih =>
    rw [run] at h
    split at h
    · rename_i next performed
      rw [perform, pieces_eq] at performed
      obtain ⟨front, first, rfl⟩ := appended_of_append performed
      obtain ⟨back, others, rfl⟩ := ih h
      exact ⟨front ++ back, first.append others, List.append_assoc w front back⟩
    · cases h

theorem perform_fieldNumber (w : Writer) {op : Operation} {number wireType : Int}
    {rest : List Item} (h : op.items = .tag number wireType :: rest) (low : number < 1) :
    w.perform op = (.error (.fieldNumber ⟨number⟩), w) := by
  rw [perform, pieces_eq, h, List.map_cons, Item.written, tagBytes, Tag.encode?, if_pos low]
  rfl

/-- A reader is the mirror of a writer: after any operations that succeed, the reads that mirror
them answer what was written, and the last of them ends with the buffer. An operation whose field
number is not positive leaves the buffer as it was. -/
theorem reads_mirror :
    (∀ {ops : List Operation} {w : Writer}
        {reads : List (ReaderSession.Operation × ReaderSession.Answer)},
      run [] ops = .ok w → Addressable w →
      List.Forall₂ Item.ReadsAs (ops.flatMap Operation.items) reads →
        let (answers, last) := (ReaderSession.ofBytes w).run (reads.map Prod.fst)
        answers = reads.map (fun read => .ok read.2) ∧ last.reader.hasMore = false ∧
          last.reader.offset = w.length) ∧
    ∀ (w : Writer) {op : Operation} {number wireType : Int} {rest : List Item},
      op.items = .tag number wireType :: rest → number < 1 →
        w.perform op = (.error (.fieldNumber ⟨number⟩), w) := by
  refine ⟨fun {ops w reads} written size mirrored => ?_, fun w _ _ _ _ => perform_fieldNumber w⟩
  obtain ⟨bytes, appended, eq⟩ := appended_of_run written
  obtain rfl : w = bytes := eq
  have read := appended.run size mirrored 0 [] false
  rw [List.append_nil, Nat.zero_add] at read
  rw [ReaderSession.ofBytes, Reader.ofBytes, read]
  exact ⟨rfl, rfl, rfl⟩

/-- Negative numbers, once read with a sign and once without, an empty payload and a text of more
than ASCII; then a field number that is refused. -/
theorem reads_mirror_extremes :
    let w : Writer := [0x08, 0xFF, 0xFF, 0xFF, 0xFF, 0xFF, 0xFF, 0xFF, 0xFF, 0xFF, 0x01,
      0xFF, 0xFF, 0xFF, 0xFF, 0x12, 0x02, 0xC3, 0xA9, 0x00]
    run [] [.varintField 1 (-1), .fixed32 (-1), .textField 2 [.ofNat 0xE9], .bytes []] = .ok w ∧
      (let (answers, last) := (ReaderSession.ofBytes w).run
        [.tag, .int64, .fixed32, .tag, .text, .bytes]
      answers = [.ok (.tag ⟨1, .varint⟩), .ok (.number (-1)), .ok (.number 0xFFFFFFFF),
          .ok (.tag ⟨2, .lengthDelimited⟩), .ok (.text [.ofNat 0xE9]), .ok (.bytes [])] ∧
        last.reader.hasMore = false ∧ last.reader.offset = w.length) ∧
      w.perform (.textField 0 []) = (.error (.fieldNumber ⟨0⟩), w) := by
  intro w
  have written : run [] [.varintField 1 (-1), .fixed32 (-1), .textField 2 [.ofNat 0xE9],
      .bytes []] = .ok w := by cbv
  refine ⟨written, ?_, reads_mirror.2 w rfl (by decide)⟩
  exact reads_mirror.1 written (by decide)
    (.cons (.tag (by decide) .varint) (.cons (.int64 (by decide) (by decide))
      (.cons (.fixed32 (-1)) (.cons (.tag (by decide) .lengthDelimited)
        (.cons (.text [.ofNat 0xE9]) (.cons (.bytes []) .nil))))))

end Writer

end SchemaPlugin.Wire
