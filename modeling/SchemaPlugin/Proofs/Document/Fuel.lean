import SchemaPlugin.Proofs.Document.Unpaired

/-!
Fuel for documents. Each two calls take a code point, so that with more than twice the length of a
text as fuel, how much there is makes no difference to what is read from the text, or to the
complaint about it.
-/

namespace SchemaPlugin

theorem Text.length_eq_of_dropPrefix? {head t rest : Text} (h : dropPrefix? head t = some rest) :
    t.length = head.length + rest.length := by
  rw [eq_append_of_dropPrefix? h, List.length_append]

namespace Document

variable {t rest : Text}

theorem length_skipSpace_le (t : Text) : (skipSpace t).length ≤ t.length :=
  (List.dropWhile_suffix _).length_le

theorem length_skipSpace_lt {head : Text} (h : Text.dropPrefix? head (skipSpace t) = some rest)
    (some_ : head ≠ []) : (skipSpace rest).length < t.length := by
  have before := length_skipSpace_le t
  have after := length_skipSpace_le rest
  have taken := List.length_pos_iff.2 some_
  rw [Text.length_eq_of_dropPrefix? h] at before
  omega

section Length

theorem suffix_of_stringRest {opening : Nat} {s : Text}
    (h : stringRest opening t = .ok (s, rest)) : rest <:+ t := by
  induction hn : t.length using Nat.strongRecOn generalizing t s with
  | _ n ih =>
    have tail {c d : CodePoint} {u after : Text} (eq : t = c :: u) (left : after <:+ u)
        (read : prepend d (stringRest opening after) = .ok (s, rest)) : rest <:+ t := by
      obtain ⟨s', others, -⟩ := prepend_eq_ok_iff.1 read
      have shorter : after.length < n := by
        rw [← hn, eq, List.length_cons]
        exact Nat.lt_succ_of_le left.length_le
      rw [eq]
      exact ((ih _ shorter others rfl).trans left).trans (List.suffix_cons c u)
    cases t with
    | nil =>
      rw [stringRest] at h
      cases h
    | cons c u =>
      by_cases quote : c = CodePoint.ofChar '"'
      · rw [stringRest, if_pos quote] at h
        cases h
        exact List.suffix_cons _ _
      by_cases control : c.val < 0x20
      · rw [stringRest, if_neg quote, if_pos control] at h
        cases h
      by_cases backslash : c = CodePoint.ofChar '\\'
      · subst backslash
        cases read : escape opening u with
        | error fault =>
          rw [stringRest_escape_error read] at h
          cases h
        | ok p =>
          rw [stringRest_escape read] at h
          exact tail rfl (escape_cases read).1 h
      · rw [stringRest_plain quote (by omega) backslash] at h
        exact tail rfl (List.suffix_refl u) h

/-- No text that follows what was read is longer. -/
theorem inherited_length_le (n : Nat) :
    Inherited (fun t => t.length ≤ n) (fun _ => True) (fun _ => True) where
  suffix le left := left.length_le.trans le
  stringRest le read := ⟨(suffix_of_stringRest read).length_le.trans le, trivial⟩
  atom _ := trivial
  ofString _ := trivial
  array _ := trivial
  ofMembers _ := trivial

theorem length_le_of_value {fuel : Nat} {d : Document} (h : value fuel t = .ok (d, rest)) :
    rest.length ≤ t.length :=
  (((inherited_length_le t.length).inherits fuel).value (Nat.le_refl _) d rest h).1

end Length

/-- More fuel than so much makes no difference for texts that this is enough for. -/
structure Ample (fuel : Nat) : Prop where
  value : ∀ {more : Nat} {t : Text}, 2 * t.length < fuel → 2 * t.length < more →
    Document.value fuel t = Document.value more t
  items : ∀ {more : Nat} {t : Text}, 2 * t.length + 1 < fuel → 2 * t.length + 1 < more →
    Document.items fuel t = Document.items more t
  members : ∀ {more : Nat} {t : Text}, 2 * t.length + 1 < fuel → 2 * t.length + 1 < more →
    Document.members fuel t = Document.members more t

namespace Ample

variable {fuel more : Nat}

theorem value_succ (ample : Ample fuel) (enough : 2 * t.length < fuel + 1)
    (enough' : 2 * t.length < more + 1) :
    Document.value (fuel + 1) t = Document.value (more + 1) t := by
  cases t with
  | nil => rfl
  | cons c t =>
    have shorter := length_skipSpace_le t
    rw [List.length_cons] at enough enough'
    have items : Document.items fuel (skipSpace t) = Document.items more (skipSpace t) :=
      ample.items (by omega) (by omega)
    have members : Document.members fuel (skipSpace t) = Document.members more (skipSpace t) :=
      ample.members (by omega) (by omega)
    rw [Document.value, Document.value, items, members]

theorem items_succ (ample : Ample fuel) (enough : 2 * t.length + 1 < fuel + 1)
    (enough' : 2 * t.length + 1 < more + 1) :
    Document.items (fuel + 1) t = Document.items (more + 1) t := by
  rw [Document.items, Document.items]
  refine bind_congr_ok (ample.value (by omega) (by omega)) fun p read => ?_
  obtain ⟨d, rest⟩ := p
  have left := length_le_of_value read
  simp only
  cases Text.dropPrefix? "]" (skipSpace rest) with
  | some rest => rfl
  | none =>
    cases comma : Text.dropPrefix? "," (skipSpace rest) with
    | none => rfl
    | some next =>
      have shorter := length_skipSpace_lt comma (by decide)
      have items : Document.items fuel (skipSpace next) = Document.items more (skipSpace next) :=
        ample.items (by omega) (by omega)
      simp only
      rw [items]

theorem members_succ (ample : Ample fuel) (enough : 2 * t.length + 1 < fuel + 1)
    (enough' : 2 * t.length + 1 < more + 1) :
    Document.members (fuel + 1) t = Document.members (more + 1) t := by
  rw [Document.members, Document.members]
  cases quote : Text.dropPrefix? "\"" t with
  | none => rfl
  | some begun =>
    have opened : t.length = 1 + begun.length := Text.length_eq_of_dropPrefix? quote
    refine bind_congr_ok rfl fun p read => ?_
    obtain ⟨key, rest⟩ := p
    have named := (suffix_of_stringRest read).length_le
    simp only
    cases colon : Text.dropPrefix? ":" (skipSpace rest) with
    | none => rfl
    | some after =>
      have parted := length_skipSpace_lt colon (by decide)
      refine bind_congr_ok (ample.value (by omega) (by omega)) fun p read => ?_
      obtain ⟨d, rest⟩ := p
      have left := length_le_of_value read
      simp only
      cases Text.dropPrefix? "\x7d" (skipSpace rest) with
      | some rest => rfl
      | none =>
        cases comma : Text.dropPrefix? "," (skipSpace rest) with
        | none => rfl
        | some next =>
          have shorter := length_skipSpace_lt comma (by decide)
          have members : Document.members fuel (skipSpace next) =
              Document.members more (skipSpace next) :=
            ample.members (by omega) (by omega)
          simp only
          rw [members]

end Ample

theorem ample (fuel : Nat) : Ample fuel := by
  induction fuel with
  | zero => constructor <;> exact fun enough => absurd enough (Nat.not_lt_zero _)
  | succ fuel ih =>
    refine ⟨?_, ?_, ?_⟩ <;> rintro (_ | more) t enough enough'
    · exact absurd enough' (Nat.not_lt_zero _)
    · exact ih.value_succ enough enough'
    · exact absurd enough' (Nat.not_lt_zero _)
    · exact ih.items_succ enough enough'
    · exact absurd enough' (Nat.not_lt_zero _)
    · exact ih.members_succ enough enough'

/-- A text is read in the same way with any fuel that is enough. -/
theorem value_eq_value {fuel more : Nat} (enough : 2 * t.length < fuel)
    (enough' : 2 * t.length < more) : value fuel t = value more t :=
  (ample fuel).value enough enough'

end Document

end SchemaPlugin
