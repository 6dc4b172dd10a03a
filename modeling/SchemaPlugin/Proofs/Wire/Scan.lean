import SchemaPlugin.Proofs.Wire.Shift
import SchemaPlugin.Proofs.Wire.WholeFields

/-!
Scans one field at a time. A scan takes the fields that stand at the front, one after the other, and
each takes two bytes at least.
-/

namespace SchemaPlugin.Wire

namespace Reader

variable {r mid next stop : Reader} {ts us : List Tag}

/-- The tag of a field takes a byte, and so does its value. -/
theorem Scanned.offset_le (h : r.Scanned ts next) : r.offset + 2 * ts.length ≤ next.offset := by
  induction h with
  | nil r => exact Nat.le_refl _
  | cons tag skip _ ih =>
    have := (advances_tag tag).offset_lt
    have := (advances_skip skip).offset_lt
    rw [List.length_cons]
    omega

theorem Scanned.append (h : r.Scanned ts mid) (h' : mid.Scanned us next) :
    r.Scanned (ts ++ us) next := by
  induction h with
  | nil => exact h'
  | cons tag skip _ ih => exact .cons tag skip (ih h')

/-- A scan begins with the field that stands at the front. -/
theorem scan_wholeField {number : Nat} {value : Value} {bytes : Bytes}
    (whole : WholeField number value bytes) (offset : Nat) (rest : Bytes) :
    scan ⟨offset, bytes ++ rest⟩ =
      ((scan ⟨offset + bytes.length, rest⟩).1.map (⟨number, value.wireType⟩ :: ·),
        (scan ⟨offset + bytes.length, rest⟩).2) := by
  obtain ⟨mid, tag, read⟩ := whole.reads offset rest
  exact scan_field tag read

theorem scan_nil (offset : Nat) : scan ⟨offset, []⟩ = (.ok [], ⟨offset, []⟩) := by
  rw [scan]
  rfl

end Reader

end SchemaPlugin.Wire
