import Mathlib.Data.List.Basic
import SchemaPlugin.Path
import SchemaPlugin.Proofs.Text.Pieces

/-!
Directories and the names in them. A path is read component by component, and a slash more or a
component `.` makes no difference to what is read. The text of a path is therefore what stands
before the names in its directory, and its name; and a text can have slashes and still be read as
one component.
-/

namespace SchemaPlugin.Path

/-- A text that is a component by itself. -/
def IsComponent (c : Text) : Prop := c ≠ [] ∧ c ≠ [dot] ∧ slash ∉ c

instance : DecidablePred IsComponent := fun _ => inferInstanceAs (Decidable (_ ∧ _ ∧ _))

/-- The path of a name in a directory. -/
def child (directory : Path) (name : Text) : Path :=
  ⟨directory.root, directory.components ++ [name]⟩

/-- What stands before the names in a directory: nothing for the current one, and a text that ends
with a slash for any other. -/
def leading (directory : Path) : Text :=
  directory.root.text ++ directory.components.flatMap (· ++ [slash])

variable {directory : Path} {c name t : Text}

theorem child_inj {directory' : Path} {name' : Text} :
    directory.child name = directory'.child name' ↔ directory = directory' ∧ name = name' := by
  obtain ⟨root, components⟩ := directory
  obtain ⟨root', components'⟩ := directory'
  simp only [child, mk.injEq, List.append_singleton_inj, and_assoc]

theorem name?_child : (directory.child name).name? = some name := List.getLast?_concat

/-- A path has no components, or it is that of a name in a directory. -/
theorem components_eq_nil_or_child (p : Path) :
    p.components = [] ∨ ∃ directory name, p = child directory name := by
  rcases List.eq_nil_or_concat' p.components with empty | ⟨components, name, eq⟩
  · exact .inl empty
  · refine .inr ⟨⟨p.root, components⟩, name, ?_⟩
    rw [child, ← eq]

theorem toText_child (directory : Path) (name : Text) :
    (directory.child name).toText = directory.leading ++ name := by
  obtain ⟨root, components⟩ := directory
  have joined : Text.join [slash] (components ++ [name]) =
      components.flatMap (· ++ [slash]) ++ name := by
    induction components with
    | nil => rfl
    | cons c components ih =>
      obtain ⟨d, rest, eq⟩ : ∃ d rest, components ++ [name] = d :: rest :=
        List.exists_cons_of_ne_nil (by simp)
      rw [List.cons_append, eq, Text.join_cons_cons, ← eq, ih, List.flatMap_cons]
      exact (List.append_assoc _ _ _).symm
  rw [toText, if_neg (by simp [child]), leading, List.append_assoc, ← joined]
  rfl

section Read

theorem root_ofText_eq_none_iff : (ofText t).root = .none ↔ t.head? ≠ some slash := by
  cases t with
  | nil => simp [ofText]
  | cons c t =>
    by_cases here : c = slash
    · rw [List.head?_cons, here]
      simp only [ofText, decide_true, List.takeWhile_cons_of_pos, List.length_cons]
      split <;> simp_all
    · simp [ofText, here]

theorem components_ofText_append (front back : Text) :
    (ofText (front ++ slash :: back)).components =
      (ofText front).components ++ (ofText back).components := by
  simp only [ofText, Text.split_append, List.filter_append]

theorem isComponent_of_mem (h : c ∈ (ofText t).components) : IsComponent c := by
  obtain ⟨piece, some_⟩ := List.mem_filter.1 h
  obtain ⟨nonempty, other⟩ := of_decide_eq_true some_
  exact ⟨nonempty, other, Text.notMem_of_mem_split piece⟩

/-- One component is read if one of the pieces between slashes is a component and the others are
empty or `.`. -/
theorem components_ofText_eq_singleton_iff :
    (ofText t).components = [c] ↔ IsComponent c ∧ ∃ front back,
      Text.split slash t = front ++ c :: back ∧
        ∀ piece ∈ front ++ back, piece = [] ∨ piece = [dot] := by
  have blank_iff (piece : Text) :
      ¬decide (piece ≠ [] ∧ piece ≠ [dot]) = true ↔ piece = [] ∨ piece = [dot] := by
    simp [or_iff_not_imp_left]
  constructor
  · intro components
    refine ⟨isComponent_of_mem (components ▸ List.mem_cons_self), ?_⟩
    obtain ⟨front, back, pieces, before, -, after⟩ := List.filter_eq_cons_iff.1 components
    refine ⟨front, back, pieces, fun piece mem => (blank_iff piece).1 ?_⟩
    rcases List.mem_append.1 mem with mem | mem
    · exact before piece mem
    · exact List.filter_eq_nil_iff.1 after piece mem
  · rintro ⟨⟨nonempty, other, -⟩, front, back, pieces, blank⟩
    rw [List.forall_mem_append] at blank
    exact List.filter_eq_cons_iff.2 ⟨front, back, pieces,
      fun piece mem => (blank_iff piece).2 (blank.1 piece mem), decide_eq_true ⟨nonempty, other⟩,
      List.filter_eq_nil_iff.2 fun piece mem => (blank_iff piece).2 (blank.2 piece mem)⟩

theorem IsComponent.ofText_eq (h : IsComponent c) : ofText c = ⟨.none, [c]⟩ := by
  obtain ⟨nonempty, other, free⟩ := h
  have root : (ofText c).root = .none :=
    root_ofText_eq_none_iff.2 fun first => free (List.mem_of_mem_head? first)
  have components : (ofText c).components = [c] := by
    simp [ofText, Text.split_of_notMem free, nonempty, other]
  rw [← root, ← components]

/-- The slashes of a root are read as that root. -/
theorem ofText_root_append (root : Root) (relative : t.head? ≠ some slash) :
    ofText (root.text ++ t) = ⟨root, (ofText t).components⟩ := by
  have components (t : Text) : (ofText (slash :: t)).components = (ofText t).components :=
    components_ofText_append [] t
  have rest : t.takeWhile (· = slash) = [] := by
    cases t with
    | nil => rfl
    | cons c t => exact List.takeWhile_cons_of_neg (by simpa using relative)
  cases root with
  | none =>
    change ofText t = _
    rw [← root_ofText_eq_none_iff.2 relative]
  | single =>
    change ofText (slash :: t) = _
    rw [← components t]
    simp [ofText, rest]
  | double =>
    change ofText (slash :: slash :: t) = _
    rw [← components t, ← components (slash :: t)]
    simp [ofText, rest]

/-- What stands before the names in a directory is read as the directory. -/
theorem ofText_leading_append (each : ∀ c ∈ directory.components, IsComponent c)
    (relative : t.head? ≠ some slash) :
    ofText (directory.leading ++ t) =
      ⟨directory.root, directory.components ++ (ofText t).components⟩ := by
  obtain ⟨root, components⟩ := directory
  have read : (ofText (components.flatMap (· ++ [slash]) ++ t)).components =
      components ++ (ofText t).components ∧
        (components.flatMap (· ++ [slash]) ++ t).head? ≠ some slash := by
    induction components with
    | nil => exact ⟨rfl, relative⟩
    | cons c components ih =>
      obtain ⟨first, others⟩ := List.forall_mem_cons.1 each
      rw [List.flatMap_cons, List.append_assoc, List.append_assoc, List.singleton_append]
      refine ⟨?_, ?_⟩
      · rw [components_ofText_append, first.ofText_eq, (ih others).1]
        rfl
      · rw [List.head?_append_of_ne_nil _ first.1]
        exact fun begins => first.2.2 (List.mem_of_mem_head? begins)
  rw [leading, List.append_assoc, ofText_root_append root read.2, read.1]

/-- A text that is read as one component is read, in a directory, as that component there. -/
theorem ofText_leading_append_name {final : Text}
    (each : ∀ c ∈ directory.components, IsComponent c) (read : ofText final = ⟨.none, [c]⟩) :
    ofText (directory.leading ++ final) = directory.child c := by
  have relative : final.head? ≠ some slash := root_ofText_eq_none_iff.1 (congrArg Path.root read)
  rw [ofText_leading_append each relative, read]
  rfl

end Read

/-- A text with slashes in it, though not at its ends, whose pieces between them are all empty or
`.` but one: the text is read as that component, and is not the component. -/
structure Dotted (c t : Text) : Prop where
  slash_mem : slash ∈ t
  head : t.head? ≠ some slash
  last : t.getLast? ≠ some slash
  isComponent : IsComponent c
  pieces : ∃ front back, Text.split slash t = front ++ c :: back ∧
    ∀ piece ∈ front ++ back, piece = [] ∨ piece = [dot]

theorem Dotted.ofText_eq (h : Dotted c t) : ofText t = ⟨.none, [c]⟩ := by
  have components : (ofText t).components = [c] :=
    components_ofText_eq_singleton_iff.2 ⟨h.isComponent, h.pieces⟩
  rw [← root_ofText_eq_none_iff.2 h.head, ← components]

/-- A text can stand for a name if it is a component, or is read as one. -/
theorem isName_iff : IsName t ↔ IsComponent t ∨ ∃ c, Dotted c t := by
  constructor
  · rintro ⟨last, c, read⟩
    have root : (ofText t).root = .none := congrArg Path.root read
    have components : (ofText t).components = [c] := congrArg Path.components read
    obtain ⟨component, front, back, pieces, blank⟩ :=
      components_ofText_eq_singleton_iff.1 components
    by_cases mem : slash ∈ t
    · exact .inr ⟨c, mem, root_ofText_eq_none_iff.1 root, last, component, front, back, pieces,
        blank⟩
    · rw [Text.split_of_notMem mem] at pieces
      have same : c ∈ [t] := pieces ▸ List.mem_append_right _ List.mem_cons_self
      exact .inl (List.mem_singleton.1 same ▸ component)
  · rintro (component | ⟨c, dotted⟩)
    · exact ⟨fun last => component.2.2 (List.mem_of_mem_getLast? last), t, component.ofText_eq⟩
    · exact ⟨dotted.last, c, dotted.ofText_eq⟩

end SchemaPlugin.Path
