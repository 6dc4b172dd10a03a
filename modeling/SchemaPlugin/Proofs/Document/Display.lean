import SchemaPlugin.Document.Display
import SchemaPlugin.Proofs.Document.Printer

/-!
What messages show of a document has no surrogates: none of them is printable, so that they are
escaped in quotes, and there is no other place for them.
-/

namespace SchemaPlugin

open Text

theorem CodePoint.isPrintable_of_isSurrogate {c : CodePoint} (h : c.isSurrogate = true) :
    c.isPrintable = false := by
  have bounds : 0xD800 ≤ c.val ∧ c.val ≤ 0xDFFF := by simpa [isSurrogate] using h
  have listed : (0xD7FC, 0xF8FF) ∈ unprintableRanges := by decide +kernel
  have inside : (unprintableRanges.any fun range => range.1 ≤ c.val && c.val ≤ range.2) = true := by
    refine List.any_eq_true.2 ⟨_, listed, ?_⟩
    simp only [Bool.and_eq_true, decide_eq_true_eq]
    omega
  rw [isPrintable, inside, Bool.not_true]

namespace Text

theorem encodable_escaped {quote c : CodePoint} (h : quote.isSurrogate = false) :
    (escaped quote c).Encodable := by
  unfold escaped
  split_ifs with special _ _ _ printable
  · rcases special with rfl | rfl <;> simp [h]
  · simp
  · simp
  · simp
  · have plain : c.isSurrogate = false := Bool.eq_false_iff.2 fun surrogate => by
      rw [CodePoint.isPrintable_of_isSurrogate surrogate] at printable
      cases printable
    simp [plain]
  · simp
  · simp
  · simp

@[simp] theorem encodable_quoted (t : Text) : t.quoted.Encodable := by
  have quote : t.quoteOf.isSurrogate = false := by
    unfold quoteOf
    split_ifs <;> exact CodePoint.isSurrogate_ofChar _
  simp [quoted, quote, encodable_flatMap fun c _ => encodable_escaped (c := c) quote]

theorem encodable_join {separator : Text} (h : separator.Encodable) {ts : List Text}
    (each : ∀ t ∈ ts, t.Encodable) : (join separator ts).Encodable := by
  induction ts using join.induct with
  | case1 => exact encodable_nil
  | case2 t => exact each t List.mem_cons_self
  | case3 t u rest ih =>
    obtain ⟨first, others⟩ := List.forall_mem_cons.1 each
    rw [join]
    exact encodable_append.2 ⟨encodable_append.2 ⟨first, h⟩, ih others⟩

end Text

namespace Document

mutual

theorem encodable_shown : ∀ d : Document, d.shown.Encodable
  | null => by simp [shown]
  | bool b => by cases b <;> simp [shown]
  | int n => by simp [shown]
  | double x => by simp [shown, Double.encodable_text]
  | string t => by simp [shown]
  | array items => by
    simp [shown, encodable_join (encodable_ofString ", ") (encodable_shownItems items)]
  | object members => by
    simp [shown, encodable_join (encodable_ofString ", ") (encodable_shownMembers members)]

theorem encodable_shownItems : ∀ items, ∀ t ∈ shownItems items, t.Encodable
  | [] => nofun
  | d :: rest => List.forall_mem_cons.2 ⟨encodable_shown d, encodable_shownItems rest⟩

theorem encodable_shownMembers : ∀ members, ∀ t ∈ shownMembers members, t.Encodable
  | [] => nofun
  | (key, d) :: rest =>
    List.forall_mem_cons.2 ⟨by simp [encodable_shown d], encodable_shownMembers rest⟩

end

end Document

end SchemaPlugin
