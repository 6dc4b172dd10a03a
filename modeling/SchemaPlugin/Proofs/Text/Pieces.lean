import Mathlib.Data.List.TakeWhile
import Mathlib.Tactic.SplitIfs
import SchemaPlugin.Text

/-!
Pieces of texts, with separators between them. A text is cut at the first separator or split at all
of them; pieces that are joined, and have no separator themselves, are the pieces of the whole.
-/

namespace SchemaPlugin.Text

variable {separator : CodePoint} {front back t : Text} {pieces : List Text}

theorem split_ne_nil (separator : CodePoint) (t : Text) : split separator t ≠ [] := by
  cases t with
  | nil => simp [split]
  | cons c t =>
    rw [split]
    split_ifs
    · simp
    · split <;> simp

/-- What stands between separators is split by itself. -/
theorem split_append (separator : CodePoint) (front back : Text) :
    split separator (front ++ separator :: back) =
      split separator front ++ split separator back := by
  induction front with
  | nil => exact if_pos rfl
  | cons c front ih =>
    rw [List.cons_append, split, split, ih]
    split_ifs
    · rfl
    · cases pieces : split separator front with
      | nil => exact absurd pieces (split_ne_nil separator front)
      | cons piece pieces => rfl

theorem split_of_notMem (absent : separator ∉ t) : split separator t = [t] := by
  induction t with
  | nil => rfl
  | cons c t ih =>
    rw [List.mem_cons, not_or] at absent
    rw [split, if_neg (Ne.symm absent.1), ih absent.2]

theorem notMem_of_mem_split {piece : Text} (h : piece ∈ split separator t) : separator ∉ piece := by
  induction t generalizing piece with
  | nil =>
    obtain rfl := List.mem_singleton.1 h
    exact List.not_mem_nil
  | cons c t ih =>
    rw [split] at h
    split_ifs at h with here
    · rcases List.mem_cons.1 h with rfl | later
      · exact List.not_mem_nil
      · exact ih later
    · split at h
      · rename_i empty
        exact absurd empty (split_ne_nil separator t)
      · rename_i first others eq
        rw [eq] at ih
        rcases List.mem_cons.1 h with rfl | later
        · exact List.not_mem_cons_of_ne_of_not_mem (Ne.symm here) (ih List.mem_cons_self)
        · exact ih (List.mem_cons_of_mem _ later)

theorem cut?_append (absent : separator ∉ front) :
    cut? separator (front ++ separator :: back) = some (front, back) := by
  have each : ∀ c ∈ front, decide (c ≠ separator) = true := fun c mem =>
    decide_eq_true fun same => absent (same ▸ mem)
  simp only [cut?, List.dropWhile_append_of_pos each, List.takeWhile_append_of_pos each]
  simp

theorem cut?_of_notMem (absent : separator ∉ t) : cut? separator t = none := by
  have each : ∀ c ∈ t, decide (c ≠ separator) = true := fun c mem =>
    decide_eq_true fun same => absent (same ▸ mem)
  rw [cut?, List.dropWhile_eq_nil_iff.2 each]

theorem cut?_eq_some_iff :
    cut? separator t = some (front, back) ↔ t = front ++ separator :: back ∧ separator ∉ front := by
  constructor
  · intro found
    have mem : separator ∈ t := by
      by_contra absent
      rw [cut?_of_notMem absent] at found
      cases found
    obtain ⟨before, after, rfl, absent⟩ := List.eq_append_cons_of_mem mem
    rw [cut?_append absent] at found
    cases found
    exact ⟨rfl, absent⟩
  · rintro ⟨rfl, absent⟩
    exact cut?_append absent

theorem join_cons_cons (separator t u : Text) (rest : List Text) :
    join separator (t :: u :: rest) = t ++ separator ++ join separator (u :: rest) := rfl

theorem split_join (some_ : pieces ≠ []) (free : ∀ piece ∈ pieces, separator ∉ piece) :
    split separator (join [separator] pieces) = pieces := by
  induction pieces with
  | nil => exact absurd rfl some_
  | cons t rest ih =>
    obtain ⟨first, others⟩ := List.forall_mem_cons.1 free
    cases rest with
    | nil => exact split_of_notMem first
    | cons u rest =>
      rw [join_cons_cons, List.append_assoc, List.singleton_append, split_append,
        split_of_notMem first, ih (List.cons_ne_nil u rest) others]
      rfl

end SchemaPlugin.Text
