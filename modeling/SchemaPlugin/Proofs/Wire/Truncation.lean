import SchemaPlugin.Proofs.Wire.Locality
import SchemaPlugin.Proofs.Wire.WholeFields

/-!
Data cut off. A cut between two fields leaves whole fields; any other leaves the front of a field
at the end of the buffer, and a reader that comes there finds that data are missing, before it sees
anything else that might be wrong with them.
-/

namespace SchemaPlugin.Wire

theorem DecodeError.message_of_isCut {e : DecodeError} (cut : e.fault.IsCut) :
    Text.ofString "Unexpected end of data" <+: e.message := by
  obtain ⟨fault, offset⟩ := e
  cases fault with
  | varintCut => exact (List.prefix_append _ (Text.ofString " while reading varint" ++ _))
  | valueCut value expected available =>
    exact (List.prefix_append _ (Text.ofString " while " ++ _))
  | _ => exact cut.elim

namespace Fields

variable {σ : Type} {guard : Tag → Nat → Except DecodeError Unit}
  {step : σ → Field → Except DecodeError σ} {s t : σ} {cut rest : Bytes}

/-- The front of a field ends in its tag or in its value. -/
theorem ofReader_cut {number : Nat} {value : Value} (whole : WholeField number value (cut ++ rest))
    (begun : cut ≠ []) (remains : rest ≠ []) (offset : Nat) :
    ∃ e : DecodeError, e.fault.IsCut ∧ (ofReader ⟨offset, cut⟩ = .badTag e ∨
      ∃ start, ofReader ⟨offset, cut⟩ = .badValue ⟨number, value.wireType⟩ start e) := by
  obtain ⟨front, back, tag, spelled, eq⟩ := whole
  have more : Reader.hasMore ⟨offset, cut⟩ = true := by simpa [Reader.hasMore] using begun
  rcases List.append_eq_append_iff.1 eq with ⟨missing, rfl, rfl⟩ | ⟨taken, rfl, rfl⟩
  · by_cases none : missing = []
    · subst none
      rw [List.append_nil] at tag
      have read : Reader.tag ⟨offset, cut⟩ =
          .ok (⟨number, value.wireType⟩, ⟨offset + cut.length, []⟩) :=
        Reader.tag_eq_ok_iff.2 ⟨cut, tag, (List.append_nil cut).symm, rfl⟩
      obtain ⟨e, failed, isCut⟩ :=
        @Reader.value_cut value [] _ spelled remains (offset + cut.length)
      exact ⟨e, isCut, .inr ⟨_, ofReader_badValue read failed⟩⟩
    · obtain ⟨e, failed, isCut⟩ := Reader.tag_cut tag none offset
      exact ⟨e, isCut, .inl (ofReader_badTag more failed)⟩
  · have read : Reader.tag ⟨offset, front ++ taken⟩ =
        .ok (⟨number, value.wireType⟩, ⟨offset + front.length, taken⟩) :=
      Reader.tag_eq_ok_iff.2 ⟨front, tag, rfl, rfl⟩
    obtain ⟨e, failed, isCut⟩ := Reader.value_cut spelled remains (offset + front.length)
    exact ⟨e, isCut, .inr ⟨_, ofReader_badValue read failed⟩⟩

/-- A cut is between two fields, or in the middle of one. -/
theorem wholeFields_or_cut (whole : WholeFields (cut ++ rest)) :
    (WholeFields cut ∧ WholeFields rest) ∨
      ∃ (front begun missing back : Bytes) (number : Nat) (value : Value),
        WholeFields front ∧ WholeField number value (begun ++ missing) ∧ begun ≠ [] ∧
          missing ≠ [] ∧ cut = front ++ begun ∧ rest = missing ++ back := by
  generalize all : cut ++ rest = bytes at whole
  induction whole generalizing cut with
  | nil =>
    obtain ⟨rfl, rfl⟩ := List.append_eq_nil_iff.1 all
    exact .inl ⟨.nil, .nil⟩
  | @field number value bytes others field _ tail ih =>
    rcases List.append_eq_append_iff.1 all with ⟨missing, rfl, rfl⟩ | ⟨taken, rfl, eq⟩
    · by_cases unbegun : cut = []
      · subst unbegun
        exact .inl ⟨.nil, .field field trivial tail⟩
      · by_cases none : missing = []
        · subst none
          rw [List.append_nil] at field
          exact .inl ⟨.single field trivial, tail⟩
        · exact .inr ⟨[], cut, missing, others, number, value, .nil, field, unbegun, none, rfl,
            rfl⟩
    · rcases ih eq.symm with ⟨left, right⟩ | ⟨front, begun, missing, back, n, v, h⟩
      · exact .inl ⟨.field field trivial left, right⟩
      · obtain ⟨whole, field', begins, misses, rfl, rfl⟩ := h
        exact .inr ⟨bytes ++ front, begun, missing, back, n, v, .field field trivial whole, field',
          begins, misses, (List.append_assoc _ _ _).symm, rfl⟩

/-- A buffer that is read, cut off elsewhere than between two fields. -/
theorem Steady.fold_cut (steady : Steady guard step)
    (h : fold guard step s (ofBytes (cut ++ rest)) = .ok t)
    (inside : ¬(WholeFields cut ∧ WholeFields rest)) :
    EndsEarly (fold guard step s (ofBytes cut)) := by
  have whole : WholeFields (cut ++ rest) := wholeFields_of_run (run_of_fold h)
  rcases wholeFields_or_cut whole with between | ⟨front, begun, missing, back, number, value, h'⟩
  · exact absurd between inside
  · obtain ⟨wholeFront, field, begins, misses, rfl, rfl⟩ := h'
    rcases fold_append_cases guard step wholeFront s 0 with
      ⟨e, failed⟩ | ⟨mid, leads⟩
    · rw [ofBytes, Reader.ofBytes, List.append_assoc, failed] at h
      cases h
    · obtain ⟨start, split⟩ := ofReader_append field (0 + front.length)
      have through : front ++ begun ++ (missing ++ back) = front ++ (begun ++ missing ++ back) := by
        simp only [List.append_assoc]
      rw [ofBytes, Reader.ofBytes, through, leads, split, fold_field] at h
      obtain ⟨_, guarded, -⟩ := bind_eq_ok_iff.1 h
      obtain ⟨e, isCut, ends⟩ := ofReader_cut field begins misses (0 + front.length)
      refine ⟨e, ?_, isCut⟩
      rw [ofBytes, Reader.ofBytes, leads]
      rcases ends with inTag | ⟨start', inValue⟩
      · rw [inTag, fold]
      · rw [inValue, fold, steady.guarded start' guarded, ok_bind]

end Fields

end SchemaPlugin.Wire
