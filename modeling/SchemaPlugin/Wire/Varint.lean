import SchemaPlugin.Wire.DecodeError

/-!
Varints: groups of seven bits, the lowest first, each in a byte whose high bit says that another
group follows. Ten bytes hold 64 bits, the tenth only the last of them.
-/

namespace SchemaPlugin.Wire

/-- The integers of 64 bits. -/
def word64 : Nat := 0x10000000000000000

namespace Varint

/-- The most bytes that a varint may take. -/
def maxBytes : Nat := 10

/-- The bytes of a number, as few as hold it. -/
def ofNat (n : Nat) : Bytes :=
  if n < 128 then [.ofNat n] else .ofNat (128 + n % 128) :: ofNat (n / 128)

/-- The number that stands for an integer: a negative one is written in two's complement. -/
def unsigned (i : Int) : Nat := if i < 0 then (i % (word64 : Int)).toNat else i.toNat

/-- The bytes of an integer. -/
def encode (i : Int) : Bytes := ofNat (unsigned i)

/-- Reads a varint of at most `left` bytes from the front of some bytes. -/
def read : (left : Nat) → Bytes → Except Fault (Nat × Bytes)
  | _, [] => .error .varintCut
  | 0, _ :: _ => .error .varintOverflow
  | left + 1, b :: rest =>
    if left = 0 ∧ 1 < b.toNat then .error .varintOverflow
    else if b.toNat < 128 then .ok (b.toNat, rest)
    else do
      let (high, rest) ← read left rest
      return (b.toNat % 128 + 128 * high, rest)

/-- The integer whose two's complement the last 64 bits of a number are. -/
def signed (i : Int) : Int :=
  let n := i % (word64 : Int)
  if 0x8000000000000000 ≤ n then n - word64 else n

theorem length_read {left n : Nat} {bytes rest : Bytes} (h : read left bytes = .ok (n, rest)) :
    rest.length < bytes.length := by
  induction left generalizing bytes n rest with
  | zero => cases bytes <;> simp [read] at h
  | succ left ih =>
    cases bytes with
    | nil => simp [read] at h
    | cons b tail =>
      rw [read] at h
      split at h
      · simp at h
      · split at h
        · simp only [Except.ok.injEq, Prod.mk.injEq] at h
          simp [← h.2]
        · cases hr : read left tail with
          | error e => simp [hr, bind, Except.bind] at h
          | ok p =>
            obtain ⟨high, rest'⟩ := p
            simp only [hr, bind, Except.bind, pure, Except.pure, Except.ok.injEq,
              Prod.mk.injEq] at h
            have := ih hr
            simp only [← h.2, List.length_cons]
            omega

end Varint

end SchemaPlugin.Wire
