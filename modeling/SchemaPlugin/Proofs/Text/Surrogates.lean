import Mathlib.Data.List.Chain
import SchemaPlugin.Proofs.Text.Encodable
import SchemaPlugin.Text.Encoding

/-!
Surrogates side by side. A high surrogate and a low one right after it are a pair, which is joined
to the code point that the two stand for; a text without pairs stays as it is.
-/

namespace SchemaPlugin

namespace CodePoint

/-- A high surrogate and a low one. -/
def Pair (high low : CodePoint) : Prop := high.isHighSurrogate ∧ low.isLowSurrogate

instance (high low : CodePoint) : Decidable (Pair high low) := inferInstanceAs (Decidable (_ ∧ _))

theorem isHighSurrogate_iff {c : CodePoint} :
    c.isHighSurrogate ↔ 0xD800 ≤ c.val ∧ c.val ≤ 0xDBFF := by
  simp [isHighSurrogate]

theorem isLowSurrogate_iff {c : CodePoint} :
    c.isLowSurrogate ↔ 0xDC00 ≤ c.val ∧ c.val ≤ 0xDFFF := by
  simp [isLowSurrogate]

theorem isSurrogate_of_isHighSurrogate {c : CodePoint} (h : c.isHighSurrogate) :
    c.isSurrogate = true := by
  have bounds := isHighSurrogate_iff.1 h
  simp only [isSurrogate, Bool.and_eq_true, decide_eq_true_eq]
  omega

theorem isSurrogate_of_isLowSurrogate {c : CodePoint} (h : c.isLowSurrogate) :
    c.isSurrogate = true := by
  have bounds := isLowSurrogate_iff.1 h
  simp only [isSurrogate, Bool.and_eq_true, decide_eq_true_eq]
  omega

theorem Pair.isSurrogate {high low : CodePoint} (pair : Pair high low) :
    high.isSurrogate = true ∧ low.isSurrogate = true :=
  ⟨isSurrogate_of_isHighSurrogate pair.1, isSurrogate_of_isLowSurrogate pair.2⟩

theorem not_pair_left {c d : CodePoint} (h : c.isSurrogate = false) : ¬Pair c d := by
  intro pair
  rw [pair.isSurrogate.1] at h
  cases h

end CodePoint

namespace Text

open CodePoint (Pair)
open Encoding (joinSurrogates)

/-- A text in which no high surrogate stands right before a low one. -/
def Unpaired : Text → Prop := List.IsChain fun c d => ¬Pair c d

/-- A text is read pair by pair: after a pair, or after a code point that begins none. -/
@[elab_as_elim]
theorem pairs_induction {P : Text → Prop} (nil : P [])
    (pair : ∀ c d rest, Pair c d → P rest → P (c :: d :: rest))
    (alone : ∀ c rest, (∀ d ∈ rest.head?, ¬Pair c d) → P rest → P (c :: rest)) (t : Text) : P t := by
  induction h : t.length using Nat.strongRecOn generalizing t with
  | _ n ih =>
    cases t with
    | nil => exact nil
    | cons c rest =>
      have next := ih rest.length (by rw [← h, List.length_cons]; omega) rest rfl
      cases rest with
      | nil => exact alone c [] (by simp) next
      | cons d rest =>
        by_cases halves : Pair c d
        · refine pair c d rest halves (ih rest.length ?_ rest rfl)
          rw [← h, List.length_cons, List.length_cons]
          omega
        · exact alone c (d :: rest) (by rintro _ ⟨⟩; exact halves) next

theorem joinSurrogates_cons_cons (c d : CodePoint) (rest : Text) :
    joinSurrogates (c :: d :: rest) =
      if Pair c d then .ofSurrogates c d :: joinSurrogates rest
      else c :: joinSurrogates (d :: rest) := by
  rw [joinSurrogates]
  rfl

theorem joinSurrogates_cons {c : CodePoint} {rest : Text} (alone : ∀ d ∈ rest.head?, ¬Pair c d) :
    joinSurrogates (c :: rest) = c :: joinSurrogates rest := by
  cases rest with
  | nil => rfl
  | cons d rest => rw [joinSurrogates_cons_cons, if_neg (alone d rfl)]

theorem Unpaired.joinSurrogates_eq {t : Text} (unpaired : t.Unpaired) : joinSurrogates t = t := by
  induction unpaired with
  | nil => rfl
  | singleton c => rfl
  | cons_cons alone _ ih => rw [joinSurrogates_cons_cons, if_neg alone, ih]

theorem joinSurrogates_eq_nil_iff {t : Text} : joinSurrogates t = [] ↔ t = [] := by
  match t with
  | [] => simp [joinSurrogates]
  | [c] => simp [joinSurrogates]
  | c :: d :: rest =>
    rw [joinSurrogates_cons_cons]
    split_ifs <;> simp

theorem Encodable.unpaired {t : Text} (encodable : t.Encodable) : t.Unpaired := by
  induction t with
  | nil => exact .nil
  | cons c rest ih =>
    obtain ⟨head, tail⟩ := encodable_cons.1 encodable
    exact List.isChain_cons.2 ⟨fun d _ => CodePoint.not_pair_left head, ih tail⟩

end Text

end SchemaPlugin
