import SchemaPlugin.Proofs.Wire.Shift
import SchemaPlugin.Proofs.Wire.Varint

/-!
Items on their own. What a read makes of an item is decided by the bytes of the item: they are read
alike wherever they stand and whatever follows. One decided read after another is decided, so that
only varints, bytes by number and tags have to be looked into. As a read has one outcome, no item
begins with another: of one that is cut off nothing is wrong but that bytes are missing.
-/

namespace SchemaPlugin.Wire

/-- The faults of data that end too early. -/
def Fault.IsCut : Fault → Prop
  | .varintCut => True
  | .valueCut _ _ _ => True
  | _ => False

/-- The outcome of reading data that end too early. -/
def EndsEarly {α : Type} (x : Except DecodeError α) : Prop := ∃ e, x = .error e ∧ e.fault.IsCut

namespace Varint

variable {bytes : Bytes}

theorem getElem?_append_of_some {i : Nat} {b : UInt8} (at_ : b ∈ bytes[i]?) (rest : Bytes) :
    b ∈ (bytes ++ rest)[i]? := by
  obtain ⟨inside, -⟩ := List.getElem?_eq_some_iff.1 at_
  rwa [List.getElem?_append_left inside]

theorem Overflows.append (h : Overflows bytes) (rest : Bytes) : Overflows (bytes ++ rest) := by
  obtain ⟨continued, b, at_, large⟩ := h
  refine ⟨fun i inside => ?_, b, getElem?_append_of_some at_ rest, large⟩
  obtain ⟨c, at_, more⟩ := continued i inside
  exact ⟨c, getElem?_append_of_some at_ rest, more⟩

end Varint

namespace Reader

variable {α β : Type}

section Decided

/-- The bytes are read as the value and passed over, wherever they stand and whatever follows. -/
def Takes (read : Reader → Except DecodeError (α × Reader)) (a : α) (bytes : Bytes) : Prop :=
  ∀ offset rest, read ⟨offset, bytes ++ rest⟩ = .ok (a, ⟨offset + bytes.length, rest⟩)

/-- The fault is found `k` bytes on, wherever the bytes stand and whatever follows. -/
def Declines (read : Reader → Except DecodeError (α × Reader)) (fault : Fault) (k : Nat)
    (bytes : Bytes) : Prop :=
  ∀ offset rest, read ⟨offset, bytes ++ rest⟩ = .error ⟨fault, offset + k⟩

/-- What is read is decided by the bytes that are passed over, and what is wrong, unless bytes are
missing, by those at hand. -/
structure Decided (read : Reader → Except DecodeError (α × Reader)) : Prop where
  taken : ∀ {r next : Reader} {a : α}, read r = .ok (a, next) →
    ∃ front, r.Passes front next ∧ Takes read a front
  declined : ∀ {r : Reader} {e : DecodeError}, read r = .error e →
    e.fault.IsCut ∨ ∃ k, e.offset = r.offset + k ∧ Declines read e.fault k r.rest

variable {read : Reader → Except DecodeError (α × Reader)} {a : α} {front : Bytes}

theorem decided_ok (a : α) : Decided fun r => .ok (a, r) where
  taken := by
    rintro r next a ⟨⟩
    exact ⟨[], ⟨rfl, rfl⟩, fun offset rest => rfl⟩
  declined := nofun

theorem Decided.bind {f : α → Reader → Except DecodeError (β × Reader)} (first : Decided read)
    (second : ∀ a, Decided (f a)) : Decided fun r => read r >>= fun p => f p.1 p.2 where
  taken := by
    intro r last b h
    obtain ⟨⟨a, mid⟩, begun, ended⟩ := bind_eq_ok_iff.1 h
    obtain ⟨front, passes, takes⟩ := first.taken begun
    obtain ⟨back, passes', takes'⟩ := (second a).taken ended
    refine ⟨front ++ back, passes.trans passes', fun offset rest => ?_⟩
    dsimp only
    rw [List.append_assoc, takes, ok_bind, takes', List.length_append, Nat.add_assoc]
  declined := by
    intro r e h
    rcases bind_eq_error_iff.1 h with failed | ⟨⟨a, mid⟩, begun, failed⟩
    · refine (first.declined failed).imp_right ?_
      rintro ⟨k, place, declines⟩
      exact ⟨k, place, fun offset rest => bind_eq_error_iff.2 (.inl (declines offset rest))⟩
    · obtain ⟨front, ⟨split, width⟩, takes⟩ := first.taken begun
      refine ((second a).declined failed).imp_right ?_
      rintro ⟨k, place, declines⟩
      refine ⟨front.length + k, by rw [place, width, Nat.add_assoc], fun offset rest => ?_⟩
      dsimp only
      rw [split, List.append_assoc, takes, ok_bind, declines, Nat.add_assoc]

/-- The front of an item is no item, and nothing else is wrong with it than that it ends: whatever
was found there would be found in the whole item. -/
theorem Decided.endsEarly {rest : Bytes} (decided : Decided read)
    (takes : Takes read a (front ++ rest)) (remains : rest ≠ []) (offset : Nat) :
    EndsEarly (read ⟨offset, front⟩) := by
  have whole := takes offset []
  rw [List.append_nil] at whole
  cases outcome : read ⟨offset, front⟩ with
  | ok p =>
    obtain ⟨b, next⟩ := p
    obtain ⟨begun, ⟨split, -⟩, takes'⟩ := decided.taken outcome
    have split : front = begun ++ next.rest := split
    rw [split, List.append_assoc, takes'] at whole
    have left : b = a ∧ next.rest = [] ∧ rest = [] := by simpa using whole
    exact absurd left.2.2 remains
  | error e =>
    rcases decided.declined outcome with cut | ⟨k, -, declines⟩
    · exact ⟨e, rfl, cut⟩
    · cases whole.symm.trans (declines offset rest)

end Decided

section Primitives

theorem decided_varint : Decided varint where
  taken := by
    intro r next n h
    obtain ⟨front, spelled, passes⟩ := varint_eq_ok_iff.1 h
    exact ⟨front, passes, fun _ _ => varint_eq_ok_iff.2 ⟨front, spelled, rfl, rfl⟩⟩
  declined := by
    intro r e h
    obtain ⟨fault, failed, rfl⟩ := Varint.varint_eq_error_iff_read.1 h
    rcases Varint.read_error_cases failed with rfl | rfl
    · have overflows : Varint.Overflows r.rest := Varint.read_eq_overflow_iff.1 failed
      exact .inr ⟨0, rfl, fun _ rest => Varint.varint_eq_error_iff_read.2
        ⟨_, Varint.read_eq_overflow_iff.2 (overflows.append rest), rfl⟩⟩
    · exact .inl trivial

theorem decided_take (value : Sized) (n : Nat) : Decided fun r => r.take value n where
  taken := by
    intro r next bytes h
    obtain ⟨length, passes⟩ := take_eq_ok_iff.1 h
    exact ⟨bytes, passes, fun _ _ => take_eq_ok_iff.2 ⟨length, rfl, rfl⟩⟩
  declined := by
    intro r e h
    rw [take] at h
    split_ifs at h
    cases h
    exact .inl trivial

theorem decided_fixed32 : Decided fixed32 :=
  (decided_take .fixed32 4).bind fun bytes => decided_ok (littleEndian bytes)

theorem decided_fixed64 : Decided fixed64 :=
  (decided_take .fixed64 8).bind fun bytes => decided_ok (littleEndian bytes)

theorem decided_delimited : Decided delimited :=
  decided_varint.bind fun length => decided_take .lengthDelimited length

theorem takes_tag {t : Tag} {front : Bytes} (spelled : t.Spelled front) : Takes tag t front :=
  fun _ _ => tag_eq_ok_iff.2 ⟨front, spelled, rfl, rfl⟩

theorem decided_tag : Decided tag where
  taken := by
    intro r next t h
    obtain ⟨front, spelled, passes⟩ := tag_eq_ok_iff.1 h
    exact ⟨front, passes, takes_tag spelled⟩
  declined := by
    intro r e h
    -- A tag is not one item and then another: what is wrong with its number is found at its own
    -- place, and not behind the varint.
    rcases bind_eq_error_iff.1 h with failed | ⟨⟨n, next⟩, read, failed⟩
    · refine (decided_varint.declined failed).imp_right ?_
      rintro ⟨k, place, declines⟩
      exact ⟨k, place, fun offset rest => bind_eq_error_iff.2 (.inl (declines offset rest))⟩
    · obtain ⟨front, passes, takes⟩ := decided_varint.taken read
      have again (offset : Nat) (rest : Bytes) : varint ⟨offset, r.rest ++ rest⟩ =
          .ok (n, ⟨offset + front.length, next.rest ++ rest⟩) := by
        rw [passes.1, List.append_assoc, takes]
      dsimp only at failed
      split_ifs at failed with zero
      · cases failed
        refine .inr ⟨0, rfl, fun offset rest => ?_⟩
        rw [tag, again, ok_bind]
        exact if_pos zero
      · split at failed
        · cases failed
        · rename_i unknown
          cases failed
          refine .inr ⟨0, rfl, fun offset rest => ?_⟩
          rw [tag, again, ok_bind]
          dsimp only
          rw [if_neg zero, unknown]
          rfl

theorem decided_value (type : WireType) : Decided fun r => r.value type := by
  cases type with
  | varint => exact decided_varint.bind fun n => decided_ok (Value.varint n)
  | fixed64 => exact (decided_take .skipped 8).bind fun bytes => decided_ok (Value.fixed64 _)
  | lengthDelimited => exact decided_delimited.bind fun payload => decided_ok _
  | fixed32 => exact (decided_take .skipped 4).bind fun bytes => decided_ok (Value.fixed32 _)

theorem tag_cut {t : Tag} {front rest : Bytes} (spelled : t.Spelled (front ++ rest))
    (remains : rest ≠ []) (offset : Nat) : EndsEarly (tag ⟨offset, front⟩) :=
  decided_tag.endsEarly (takes_tag spelled) remains offset

theorem value_cut {v : Value} {front rest : Bytes} (spelled : v.Spelled (front ++ rest))
    (remains : rest ≠ []) (offset : Nat) : EndsEarly (value ⟨offset, front⟩ v.wireType) := by
  have takes : Takes (fun r => r.value v.wireType) v (front ++ rest) := fun _ _ =>
    value_eq_ok_iff.2 ⟨rfl, _, spelled, rfl, rfl⟩
  exact (decided_value v.wireType).endsEarly takes remains offset

end Primitives

section Buffer

variable {read : Reader → Except DecodeError (α × Reader)} {a : α} {data front : Bytes}
  {next : Reader}

theorem ofBytesAt_append (before after : Bytes) :
    ofBytesAt (before ++ after) before.length = ⟨before.length, after⟩ :=
  congrArg (Reader.mk before.length) List.drop_left

/-- A read of an item of a buffer is about the bytes of the item. -/
structure SelfContained (read : Reader → Except DecodeError (α × Reader)) : Prop where
  /-- The item lies within the buffer. -/
  within : ∀ {data a next}, read (ofBytesAt data 0) = .ok (a, next) →
    next.offset ≤ data.length ∧ next = ofBytesAt data next.offset
  /-- Every buffer with the same bytes up to the end of the item has the same item. -/
  own : ∀ {data a next}, read (ofBytesAt data 0) = .ok (a, next) → ∀ data',
    data'.take next.offset = data.take next.offset →
      read (ofBytesAt data' 0) = .ok (a, ofBytesAt data' next.offset)
  /-- Other bytes before and after the buffer do not matter. -/
  between : ∀ {data a next}, read (ofBytesAt data 0) = .ok (a, next) → ∀ before after,
    read (ofBytesAt (before ++ data ++ after) before.length) =
      .ok (a, ofBytesAt (before ++ data ++ after) (before.length + next.offset))
  /-- No strict prefix of the bytes of the item is accepted: each ends too early. -/
  prefixFree : ∀ {data a next}, read (ofBytesAt data 0) = .ok (a, next) → ∀ front,
    front <+: data.take next.offset → front ≠ data.take next.offset →
      EndsEarly (read (ofBytesAt front 0))
  /-- What is wrong with the bytes, unless they end too early, is wrong with them between any other
  bytes, as much further on. -/
  declined : ∀ {data e}, read (ofBytesAt data 0) = .error e → ¬e.fault.IsCut → ∀ before after,
    read (ofBytesAt (before ++ data ++ after) before.length) = .error (e.shift before.length)

theorem Takes.between (takes : Takes read a front) (before after : Bytes) :
    read (ofBytesAt (before ++ front ++ after) before.length) =
      .ok (a, ofBytesAt (before ++ front ++ after) (before.length + front.length)) := by
  have last := ofBytesAt_append (before ++ front) after
  rw [List.length_append] at last
  rw [last, List.append_assoc, ofBytesAt_append, takes]

theorem Decided.exists_item (decided : Decided read)
    (h : read (ofBytesAt data 0) = .ok (a, next)) :
    ∃ front rest, data = front ++ rest ∧ next = ⟨front.length, rest⟩ ∧ Takes read a front := by
  obtain ⟨front, passes, takes⟩ := decided.taken h
  refine ⟨front, next.rest, passes.1, passes.eq.trans ?_, takes⟩
  exact congrArg (Reader.mk · next.rest) (Nat.zero_add _)

theorem Decided.selfContained (decided : Decided read) : SelfContained read where
  within := by
    intro data a next h
    obtain ⟨front, rest, rfl, rfl, -⟩ := decided.exists_item h
    refine ⟨?_, (ofBytesAt_append front rest).symm⟩
    rw [List.length_append]
    exact Nat.le_add_right _ _
  own := by
    intro data a next h data' same
    obtain ⟨front, rest, rfl, rfl, takes⟩ := decided.exists_item h
    have begins : data'.take front.length = front := same.trans List.take_left
    have split : [] ++ front ++ data'.drop front.length = data' := by
      rw [List.nil_append]
      nth_rewrite 1 [← begins]
      exact List.take_append_drop _ _
    have read := takes.between [] (data'.drop front.length)
    rwa [split, List.length_nil, Nat.zero_add] at read
  between := by
    intro data a next h before after
    obtain ⟨front, rest, rfl, rfl, takes⟩ := decided.exists_item h
    have regrouped : before ++ (front ++ rest) ++ after = before ++ front ++ (rest ++ after) := by
      simp only [List.append_assoc]
    rw [regrouped]
    exact takes.between before (rest ++ after)
  prefixFree := by
    intro data a next h front isPrefix strict
    obtain ⟨item, rest, rfl, rfl, takes⟩ := decided.exists_item h
    dsimp only at isPrefix strict
    rw [List.take_left] at isPrefix strict
    obtain ⟨missing, rfl⟩ := isPrefix
    refine decided.endsEarly takes ?_ 0
    rintro rfl
    exact strict (List.append_nil front).symm
  declined := by
    intro data e h other before after
    obtain ⟨k, place, declines⟩ := (decided.declined h).resolve_left other
    have shifted : before.length + k = before.length + e.offset := by
      rw [place]
      exact congrArg _ (Nat.zero_add k).symm
    rw [List.append_assoc, ofBytesAt_append, DecodeError.shift, ← shifted]
    exact declines before.length after

end Buffer

/-- Varints, tags, numbers of fixed width and bytes after their length are read from their own bytes
alone, wherever they stand and whatever follows; none begins with another; and what is wrong with
them, unless bytes are missing, is wrong with them anywhere. -/
theorem selfContained_primitives :
    SelfContained varint ∧ SelfContained tag ∧ SelfContained fixed32 ∧ SelfContained fixed64 ∧
      SelfContained delimited :=
  ⟨decided_varint.selfContained, decided_tag.selfContained, decided_fixed32.selfContained,
    decided_fixed64.selfContained, decided_delimited.selfContained⟩

/-- A length of two bytes and as many bytes after it, between other bytes, cut off, and in front of
different ones; a tag without a known wire type, and a varint without an end, behind other bytes. -/
theorem selfContained_primitives_samples :
    delimited (ofBytesAt ([0xFF] ++ [0x82, 0x00, 0xAA, 0xBB, 0xCC] ++ [0x01]) 1) =
        .ok ([0xAA, 0xBB], ofBytesAt ([0xFF] ++ [0x82, 0x00, 0xAA, 0xBB, 0xCC] ++ [0x01]) 5) ∧
      EndsEarly (delimited (ofBytesAt [0x82, 0x00, 0xAA] 0)) ∧
      delimited (ofBytesAt [0x82, 0x00, 0xAA, 0xBB] 0) =
        .ok ([0xAA, 0xBB], ofBytesAt [0x82, 0x00, 0xAA, 0xBB] 4) ∧
      tag (ofBytesAt ([0x80, 0x80] ++ [0x0B] ++ [0x00]) 2) = .error ⟨.unknownWireType 3, 2⟩ ∧
      varint (ofBytesAt ([0x00] ++ List.replicate 11 0xFF ++ []) 1) =
        .error ⟨.varintOverflow, 1⟩ := by
  obtain ⟨varints, tags, -, -, delimiteds⟩ := selfContained_primitives
  have item : delimited (ofBytesAt [0x82, 0x00, 0xAA, 0xBB, 0xCC] 0) =
      .ok ([0xAA, 0xBB], ⟨4, [0xCC]⟩) := by decide
  have unknown : tag (ofBytesAt [0x0B] 0) = .error ⟨.unknownWireType 3, 0⟩ := by decide
  have endless : varint (ofBytesAt (List.replicate 11 0xFF) 0) = .error ⟨.varintOverflow, 0⟩ := by
    decide
  exact ⟨delimiteds.between item [0xFF] [0x01],
    delimiteds.prefixFree item [0x82, 0x00, 0xAA] (by decide) (by decide),
    delimiteds.own item [0x82, 0x00, 0xAA, 0xBB] (by decide),
    tags.declined unknown id [0x80, 0x80] [0x00], varints.declined endless id [0x00] []⟩

end Reader

end SchemaPlugin.Wire
