import Mathlib.Tactic.SplitIfs
import SchemaPlugin.Text

/-!
Texts without surrogates: what a program spells out is one, so are digits, and what is put together
of such texts.
-/

namespace SchemaPlugin

namespace CodePoint

@[simp] theorem isSurrogate_ofChar (c : Char) : (ofChar c).isSurrogate = false := by
  rcases c.valid with below | ⟨above, _⟩
  · have : ¬0xD800 ≤ c.toNat := Nat.not_le_of_lt below
    simp [isSurrogate, ofChar, this]
  · have : ¬c.toNat ≤ 0xDFFF := Nat.not_le_of_lt above
    simp [isSurrogate, ofChar, this]

theorem isSurrogate_ofNat {n : Nat} (h : n < 0xD800) : (ofNat n).isSurrogate = false := by
  rw [isSurrogate, val_ofNat (Nat.lt_trans h (by decide))]
  simp [Nat.not_le_of_lt h]

theorem isSurrogate_hexDigit {n : Nat} (h : n < 16) : (hexDigit n).isSurrogate = false := by
  refine isSurrogate_ofNat ?_
  split_ifs <;> omega

end CodePoint

namespace Text

@[simp] theorem encodable_nil : Encodable [] := nofun

@[simp] theorem encodable_cons {c : CodePoint} {t : Text} :
    Encodable (c :: t) ↔ c.isSurrogate = false ∧ t.Encodable :=
  List.forall_mem_cons

@[simp] theorem encodable_append {t u : Text} :
    Encodable (t ++ u) ↔ t.Encodable ∧ u.Encodable :=
  List.forall_mem_append

theorem encodable_flatMap {α : Type} {as : List α} {f : α → Text}
    (each : ∀ a ∈ as, (f a).Encodable) : Encodable (as.flatMap f) := by
  intro c hc
  obtain ⟨a, ha, hc⟩ := List.mem_flatMap.1 hc
  exact each a ha c hc

@[simp] theorem encodable_ofString (s : String) : (ofString s).Encodable := by
  intro c hc
  obtain ⟨a, -, rfl⟩ := List.mem_map.1 hc
  exact CodePoint.isSurrogate_ofChar a

@[simp] theorem encodable_replicate {n : Nat} {c : Char} :
    Encodable (List.replicate n (CodePoint.ofChar c)) := by
  intro d hd
  rw [List.eq_of_mem_replicate hd]
  exact CodePoint.isSurrogate_ofChar c

@[simp] theorem encodable_ofNat (n : Nat) : (ofNat n).Encodable := by
  induction n using Nat.strongRecOn with
  | _ n ih =>
    rw [ofNat]
    split_ifs with small
    · exact encodable_cons.2 ⟨CodePoint.isSurrogate_ofNat (by omega), encodable_nil⟩
    · refine encodable_append.2 ⟨ih (n / 10) (by omega), ?_⟩
      exact encodable_cons.2 ⟨CodePoint.isSurrogate_ofNat (by omega), encodable_nil⟩

@[simp] theorem encodable_ofInt (i : Int) : (ofInt i).Encodable := by
  cases i <;> simp [ofInt]

@[simp] theorem encodable_hex (width n : Nat) : (hex width n).Encodable := by
  induction width generalizing n with
  | zero => exact encodable_nil
  | succ width ih =>
    have digit := CodePoint.isSurrogate_hexDigit (Nat.mod_lt n (by decide : 0 < 16))
    simp [hex, ih, digit]

end Text

end SchemaPlugin
