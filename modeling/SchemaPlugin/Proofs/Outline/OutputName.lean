import SchemaPlugin.Outline
import SchemaPlugin.Proofs.Path

/-!
Where outlines go. An outline lies in the directory of its file: the suffix is part of the last
component of its name and makes no other one. Two files share an output if they differ in nothing
but spelling and extension.
-/

namespace SchemaPlugin

namespace Path

/-- The path with the stem of its name in the place of the name. -/
def withoutExtension (p : Path) : Path :=
  { p with components := p.components.dropLast ++ (p.name?.map stem).toList }

theorem withoutExtension_child (directory : Path) (name : Text) :
    (directory.child name).withoutExtension = directory.child (stem name) := by
  rw [withoutExtension, name?_child, child]
  simp [child]

/-- The name is its stem and the extension. -/
def HasExtension (p : Path) (extension : Text) : Prop :=
  ∃ directory name, p = child directory name ∧ name = stem name ++ extension

theorem HasExtension.eq_of_withoutExtension {p q : Path} {extension : Text}
    (hp : p.HasExtension extension) (hq : q.HasExtension extension)
    (same : p.withoutExtension = q.withoutExtension) : p = q := by
  obtain ⟨directory, name, rfl, ended⟩ := hp
  obtain ⟨directory', name', rfl, ended'⟩ := hq
  rw [withoutExtension_child, withoutExtension_child, child_inj] at same
  rw [ended, ended', same.1, same.2]

end Path

namespace Outline

open SchemaPlugin.Path (IsComponent IsName Dotted ofText stem slash name?_child isName_iff
  isComponent_of_mem withoutExtension_child ofText_leading_append_name child_inj)

variable {fileName suffix name final output : Text} {directory : Path}

theorem outputName_of_nameless (h : (ofText fileName).components = []) (suffix : Text) :
    outputName fileName suffix = .error (.noName (ofText fileName)) := by
  rw [outputName]
  simp only [Path.withName, if_pos h]
  rfl

theorem outputName_of_child (h : ofText fileName = directory.child name) (suffix : Text) :
    outputName fileName suffix =
      if IsName (stem name ++ suffix) then .ok (directory.leading ++ (stem name ++ suffix))
      else .error (.invalid (stem name ++ suffix)) := by
  have some_ : (directory.child name).components ≠ [] := List.concat_ne_nil name _
  rw [outputName]
  simp only [h, name?_child, Option.getD_some, Path.withName, if_neg some_]
  split_ifs
  · rw [← Path.toText_child]
    simp [Path.child]
  · rfl

/-- The components of the directory of a path that was read. -/
theorem isComponent_of_child (h : ofText fileName = directory.child name) :
    ∀ c ∈ directory.components, IsComponent c := by
  intro c mem
  refine isComponent_of_mem (t := fileName) ?_
  rw [h]
  exact List.mem_append_left _ mem

/-- What becomes of a file in a directory whose outline is to have the last component `final`. -/
structure Placed (directory : Path) (final : Text) (result : Except Path.NameError Text) :
    Prop where
  component : IsComponent final → result = .ok (directory.leading ++ final) ∧
    ofText (directory.leading ++ final) = directory.child final
  dotted : ∀ c, Dotted c final → result = .ok (directory.leading ++ final) ∧
    ofText (directory.leading ++ final) = directory.child c
  refused : ¬IsComponent final → (∀ c, ¬Dotted c final) → result = .error (.invalid final)

/-- The outline of a file lies in the directory of the file, whatever the suffix, and its name there
is the stem with the suffix. If that has a slash in it there is no output, unless it is one
component all the same when it is read, among components `.`. -/
theorem outputName_exact (fileName suffix : Text) :
    ((ofText fileName).components = [] →
        outputName fileName suffix = .error (.noName (ofText fileName))) ∧
      ∀ directory name, ofText fileName = directory.child name →
        (∀ c ∈ directory.components, IsComponent c) ∧
          Placed directory (stem name ++ suffix) (outputName fileName suffix) := by
  refine ⟨fun nameless => outputName_of_nameless nameless suffix, fun directory name h => ?_⟩
  have each := isComponent_of_child h
  refine ⟨each, fun component => ⟨?_, ?_⟩, fun c dotted => ⟨?_, ?_⟩, fun other none_ => ?_⟩
  · rw [outputName_of_child h, if_pos (isName_iff.2 (.inl component))]
  · exact ofText_leading_append_name each component.ofText_eq
  · rw [outputName_of_child h, if_pos (isName_iff.2 (.inr ⟨c, dotted⟩))]
  · exact ofText_leading_append_name each dotted.ofText_eq
  · rw [outputName_of_child h, if_neg]
    exact mt isName_iff.1 (not_or.2 ⟨other, not_exists.2 none_⟩)

/-- A file in a directory written in a roundabout way, with suffixes that make a component of its
stem, that make more than one, and that leave one among components `.`. -/
theorem outputName_exact_nested :
    ofText "./a//b.proto" = Path.child ⟨.none, ["a"]⟩ "b.proto" ∧
      outputName "./a//b.proto" ".md" = .ok "a/b.md" ∧
      outputName "./a//b.proto" "/c" = .error (.invalid "b/c") ∧
      outputName "./a//b.proto" "//." = .ok "a/b//." ∧
      ofText "a/b//." = Path.child ⟨.none, ["a"]⟩ "b" := by
  have at_ : ofText "./a//b.proto" = Path.child ⟨.none, ["a"]⟩ "b.proto" := by decide
  have plain := ((outputName_exact "./a//b.proto" ".md").2 _ _ at_).2
  have broken := ((outputName_exact "./a//b.proto" "/c").2 _ _ at_).2
  have dotted := ((outputName_exact "./a//b.proto" "//.").2 _ _ at_).2
  have dotted_ : Dotted "b" (stem "b.proto" ++ "//.") :=
    ⟨by decide, by decide, by decide, by decide, [], ["", "."], by decide, by decide⟩
  have brokenOff : ∀ c, ¬Dotted c (stem "b.proto" ++ "/c") := fun c dotted => by
    have read : ofText "b/c" = ⟨.none, [c]⟩ := dotted.ofText_eq
    have two : (ofText "b/c").components.length = 2 := by decide
    rw [read] at two
    cases two
  exact ⟨at_, (plain.component (by decide)).1, broken.refused (by decide) brokenOff,
    dotted.dotted "b" dotted_⟩

/-- A suffix with a slash in it that is not refused. -/
theorem outputName_dotted :
    slash ∈ stem "a.proto" ++ "/." ∧ outputName "a.proto" "/." = .ok "a/." := by
  decide

theorem exists_of_outputName (made : outputName fileName suffix = .ok output) :
    ∃ (directory : Path) (name c : Text), ofText fileName = directory.child name ∧
      output = directory.leading ++ (stem name ++ suffix) ∧ ofText output = directory.child c := by
  rcases Path.components_eq_nil_or_child (ofText fileName) with nameless | ⟨directory, name, h⟩
  · rw [outputName_of_nameless nameless] at made
    cases made
  · rw [outputName_of_child h] at made
    split_ifs at made with isName
    cases made
    obtain ⟨-, c, read⟩ := isName
    exact ⟨directory, name, c, h, rfl, ofText_leading_append_name (isComponent_of_child h) read⟩

/-- Files have the same output if their paths are the same but for the extension. -/
theorem outputName_inj {fileName' output' : Text} (made : outputName fileName suffix = .ok output)
    (made' : outputName fileName' suffix = .ok output') :
    output = output' ↔
      (ofText fileName).withoutExtension = (ofText fileName').withoutExtension := by
  obtain ⟨directory, name, c, h, rfl, read⟩ := exists_of_outputName made
  obtain ⟨directory', name', c', h', rfl, read'⟩ := exists_of_outputName made'
  rw [h, h', withoutExtension_child, withoutExtension_child, child_inj]
  constructor
  · intro same
    rw [same, read', child_inj] at read
    obtain ⟨rfl, -⟩ := read
    exact ⟨rfl, List.append_cancel_right (List.append_cancel_left same)⟩
  · rintro ⟨rfl, same⟩
    rw [same]

end Outline

end SchemaPlugin
