import SchemaPlugin.Proofs.Wire.ReaderSession

/-!
A reader at another place. Its offset counts the bytes that stand before it and does nothing else:
with more of them it reads the same, and stops or fails as much further on.
-/

namespace SchemaPlugin.Wire

/-- The error, with `n` more bytes before its buffer. -/
def DecodeError.shift (n : Nat) (e : DecodeError) : DecodeError := ⟨e.fault, n + e.offset⟩

namespace Reader

/-- The reader, with `n` more bytes before it. -/
def shift (n : Nat) (r : Reader) : Reader := ⟨n + r.offset, r.rest⟩

@[simp] theorem shift_rest (n : Nat) (r : Reader) : (r.shift n).rest = r.rest := rfl

/-- What a read comes to, with `n` more bytes before the reader. -/
def shiftOutcome {α : Type} (n : Nat) :
    Except DecodeError (α × Reader) → Except DecodeError (α × Reader)
  | .ok (a, next) => .ok (a, next.shift n)
  | .error e => .error (e.shift n)

variable {α β : Type} {n : Nat}

theorem shiftOutcome_bind {x : Except DecodeError (α × Reader)}
    {f f' : α × Reader → Except DecodeError (β × Reader)}
    (each : ∀ a next, f' (a, next.shift n) = shiftOutcome n (f (a, next))) :
    (shiftOutcome n x >>= f') = shiftOutcome n (x >>= f) := by
  cases x with
  | error e => rfl
  | ok p => exact each p.1 p.2

variable (n) (r : Reader)

theorem shift_varint : (r.shift n).varint = shiftOutcome n r.varint := by
  rw [varint, varint, shift_rest]
  cases Varint.read Varint.maxBytes r.rest with
  | error fault => rfl
  | ok p =>
    have moved : (r.shift n).moveTo p.2 = (r.moveTo p.2).shift n :=
      congrArg (Reader.mk · p.2) (Nat.add_assoc _ _ _)
    exact congrArg (fun next => Except.ok (p.1, next)) moved

theorem shift_take (value : Sized) (width : Nat) :
    (r.shift n).take value width = shiftOutcome n (r.take value width) := by
  rw [take, take, shift_rest]
  split_ifs
  · rfl
  · have moved : (r.shift n).advance width = (r.advance width).shift n :=
      congrArg (Reader.mk · (r.rest.drop width)) (Nat.add_assoc _ _ _)
    exact congrArg (fun next => Except.ok (r.rest.take width, next)) moved

theorem shift_delimited : (r.shift n).delimited = shiftOutcome n r.delimited := by
  rw [delimited, delimited, shift_varint]
  exact shiftOutcome_bind fun length next => next.shift_take n .lengthDelimited length

theorem shift_value (type : WireType) : (r.shift n).value type = shiftOutcome n (r.value type) := by
  cases type with
  | varint =>
    rw [value, value, shift_varint]
    exact shiftOutcome_bind fun _ _ => rfl
  | fixed64 =>
    rw [value, value, shift_take]
    exact shiftOutcome_bind fun _ _ => rfl
  | lengthDelimited =>
    rw [value, value, shift_delimited]
    exact shiftOutcome_bind fun _ _ => rfl
  | fixed32 =>
    rw [value, value, shift_take]
    exact shiftOutcome_bind fun _ _ => rfl

theorem shift_tag : (r.shift n).tag = shiftOutcome n r.tag := by
  rw [tag, tag, shift_varint]
  refine shiftOutcome_bind fun number next => ?_
  dsimp only
  split_ifs
  · rfl
  · cases WireType.ofNumber? (number % 8 : Nat) <;> rfl

theorem shift_scan :
    (r.shift n).scan = (r.scan.1.mapError (DecodeError.shift n), r.scan.2.shift n) := by
  induction r using scan.induct with
  | case1 r more e ht =>
    have failed : (r.shift n).tag = .error (e.shift n) := by rw [shift_tag, ht]; rfl
    rw [scan_badTag more ht, scan_badTag (r := r.shift n) more failed]
    rfl
  | case2 r more t mid ht e hv =>
    have read : (r.shift n).tag = .ok (t, mid.shift n) := by rw [shift_tag, ht]; rfl
    have failed : (mid.shift n).value t.wireType = .error (e.shift n) := by
      rw [shift_value, hv]; rfl
    rw [scan_badValue ht hv, scan_badValue read failed]
    rfl
  | case3 r more t mid ht v last hv _ _ _ ih =>
    have read : (r.shift n).tag = .ok (t, mid.shift n) := by rw [shift_tag, ht]; rfl
    have passed : (mid.shift n).value t.wireType = .ok (v, last.shift n) := by
      rw [shift_value, hv]; rfl
    rw [scan_field ht hv, scan_field read passed, ih]
    cases last.scan.1 <;> rfl
  | case4 r more =>
    have ended : ¬(r.shift n).hasMore = true := more
    rw [scan, if_neg ended, scan, if_neg more]
    rfl

variable {r} {next : Reader} {ts : List Tag}

theorem Scanned.shift (h : r.Scanned ts next) : (r.shift n).Scanned ts (next.shift n) := by
  induction h with
  | nil r => exact .nil _
  | @cons r mid last stop t ts tag skip _ ih =>
    have read : (r.shift n).tag = .ok (t, mid.shift n) := by rw [shift_tag, tag]; rfl
    refine .cons read ?_ ih
    rw [skip_number] at skip ⊢
    obtain ⟨⟨v, last'⟩, passed, eq⟩ := bind_eq_ok_iff.1 skip
    cases eq
    rw [shift_value, passed]
    rfl

end Reader

end SchemaPlugin.Wire
