import SchemaPlugin.Console
import SchemaPlugin.Proofs.Text.Encodable

/-!
The lines that a text is broken into have no surrogates if the text has none: what is added to them
is spaces and line ends, and everything else comes from the text.
-/

namespace SchemaPlugin

variable {t : Text}

theorem Text.Encodable.sublist {u : Text} (encodable : t.Encodable) (sublist : u.Sublist t) :
    u.Encodable := fun c mem => encodable c (sublist.subset mem)

theorem Text.encodable_of_mem_split {separator : CodePoint} (encodable : t.Encodable) :
    ∀ piece ∈ split separator t, piece.Encodable := by
  induction t with
  | nil => exact List.forall_mem_singleton.2 encodable_nil
  | cons c t ih =>
    obtain ⟨first, others⟩ := encodable_cons.1 encodable
    rw [split]
    split_ifs
    · exact List.forall_mem_cons.2 ⟨encodable_nil, ih others⟩
    · split
      · exact List.forall_mem_singleton.2 (encodable_cons.2 ⟨first, encodable_nil⟩)
      · rename_i eq
        rw [eq] at ih
        obtain ⟨piece, pieces⟩ := List.forall_mem_cons.1 (ih others)
        exact List.forall_mem_cons.2 ⟨encodable_cons.2 ⟨first, piece⟩, pieces⟩

namespace Glyph

theorem encodable_ofTextAfter {g : Glyph} {base : Option CodePoint} (own : g.text.Encodable)
    (encodable : t.Encodable) : ∀ h ∈ ofTextAfter g base t, h.text.Encodable := by
  fun_induction ofTextAfter g base t with
  | case1 g => exact List.forall_mem_singleton.2 own
  | case2 g => exact List.forall_mem_singleton.2 (Text.encodable_append.2 ⟨own, encodable⟩)
  | case3 g base d rest ih =>
    obtain ⟨joiner, others⟩ := Text.encodable_cons.1 encodable
    obtain ⟨joined, later⟩ := Text.encodable_cons.1 others
    have both : Text.Encodable [CodePoint.joiner, d] :=
      Text.encodable_cons.2 ⟨joiner, Text.encodable_cons.2 ⟨joined, Text.encodable_nil⟩⟩
    exact ih (Text.encodable_append.2 ⟨own, both⟩) later
  | case4 g base c rest _ _ ih | case5 g base c rest _ _ _ ih =>
    obtain ⟨first, others⟩ := Text.encodable_cons.1 encodable
    have single : Text.Encodable [c] := Text.encodable_cons.2 ⟨first, Text.encodable_nil⟩
    exact ih (Text.encodable_append.2 ⟨own, single⟩) others
  | case6 g base c rest _ _ _ ih =>
    obtain ⟨first, others⟩ := Text.encodable_cons.1 encodable
    have single : Text.Encodable [c] := Text.encodable_cons.2 ⟨first, Text.encodable_nil⟩
    exact List.forall_mem_cons.2 ⟨own, ih single others⟩

theorem encodable_ofText (encodable : t.Encodable) : ∀ g ∈ ofText t, g.text.Encodable := by
  cases t with
  | nil => exact List.forall_mem_nil _
  | cons c t =>
    obtain ⟨first, others⟩ := Text.encodable_cons.1 encodable
    exact encodable_ofTextAfter (Text.encodable_cons.2 ⟨first, Text.encodable_nil⟩) others

end Glyph

namespace Console

theorem encodable_spaces (n : Nat) : (spaces n).Encodable := Text.encodable_replicate

theorem encodable_expandTabs (encodable : t.Encodable) : (expandTabs t).Encodable := by
  have parts : ∀ part ∈ Text.split '\t' t, part.Encodable := Text.encodable_of_mem_split encodable
  refine Text.encodable_append.2 ⟨Text.encodable_flatMap fun part mem => ?_, ?_⟩
  · have listed := parts part ((List.dropLast_sublist _).subset mem)
    simp [toTabStop, listed, encodable_spaces]
  · cases last : (Text.split '\t' t).getLast? with
    | none => exact Text.encodable_nil
    | some part => exact parts part (List.mem_of_getLast? last)

theorem encodable_of_mem_cutAt {places : List Nat} {start : Nat} (encodable : t.Encodable) :
    ∀ part ∈ cutAt start t places, part.Encodable := by
  induction places generalizing start t with
  | nil => exact List.forall_mem_singleton.2 encodable
  | cons place places ih =>
    exact List.forall_mem_cons.2 ⟨encodable.sublist (List.take_sublist _ _),
      ih (encodable.sublist (List.drop_sublist _ _))⟩

theorem encodable_fitting {width : Nat} {glyphs : List Glyph}
    (each : ∀ g ∈ glyphs, g.text.Encodable) : (fitting width glyphs).Encodable := by
  induction glyphs generalizing width with
  | nil => exact Text.encodable_nil
  | cons g rest ih =>
    obtain ⟨first, others⟩ := List.forall_mem_cons.1 each
    rw [fitting]
    split_ifs
    · exact Text.encodable_append.2 ⟨first, ih others⟩
    · exact encodable_spaces width

theorem encodable_crop {width : Nat} (encodable : t.Encodable) : (crop width t).Encodable := by
  rw [crop]
  split_ifs
  · exact encodable
  · exact encodable_fitting (Glyph.encodable_ofText encodable)

theorem encodable_of_mem_wrap {width : Nat} (encodable : t.Encodable) :
    ∀ line ∈ wrap width t, line.Encodable := by
  refine List.forall_mem_flatMap.2 fun line mem => List.forall_mem_map.2 fun part cut => ?_
  have whole : (expandTabs line).Encodable :=
    encodable_expandTabs (Text.encodable_of_mem_split encodable line mem)
  exact encodable_crop ((encodable_of_mem_cutAt whole part cut).sublist (List.take_sublist _ _))

theorem encodable_printed {lines : List Text} (each : ∀ line ∈ lines, line.Encodable) :
    (printed lines).Encodable :=
  Text.encodable_flatMap fun line mem =>
    Text.encodable_append.2 ⟨each line mem, Text.encodable_ofString "\n"⟩

end Console

end SchemaPlugin
