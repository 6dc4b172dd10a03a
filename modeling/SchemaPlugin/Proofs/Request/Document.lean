import SchemaPlugin.Proofs.Descriptor.Document
import SchemaPlugin.Proofs.Document.ReadBack
import SchemaPlugin.Proofs.Request.Canonical
import SchemaPlugin.Request.Document

/-!
Requests printed and read again. Every file of a request that was read has a name, and one whose name
is empty is filed under the empty name; of such a request nothing is lost in print but which pairs
of surrogates were two code points.
-/

namespace SchemaPlugin.Request

open Encoding (joinSurrogates)
open Document (Integral toText? toTexts? toText?_joined toTexts?_joined)

/-- Whatever the name of the file is, filing it under this name does not change it. -/
def Settled (entry : Text × Descriptor.File) : Prop :=
  ∃ name, entry.2.name = some name ∧ (name = [] → entry.1 = [])

theorem settled_named (name : Text) (file : Descriptor.File) : Settled (name, named name file) := by
  unfold named
  split
  · exact ⟨name, rfl, id⟩
  · exact ⟨name, rfl, id⟩
  · rename_i c rest eq
    exact ⟨c :: rest, eq, nofun⟩

theorem named_eq_self {entry : Text × Descriptor.File} (settled : Settled entry) :
    named entry.1 entry.2 = entry.2 := by
  obtain ⟨key, file⟩ := entry
  obtain ⟨name, own, empty⟩ := settled
  unfold named
  change file.name = some name at own
  cases name with
  | nil =>
    obtain rfl : key = [] := empty rfl
    simp only [own]
    cases file
    cases own
    rfl
  | cons c rest => simp only [own]

theorem Settled.joined {entry : Text × Descriptor.File} (settled : Settled entry) :
    Settled (joinSurrogates entry.1, entry.2.joined) := by
  obtain ⟨name, own, empty⟩ := settled
  refine ⟨joinSurrogates name, ?_, fun none => ?_⟩
  · change entry.2.name.map joinSurrogates = _
    rw [own]
    rfl
  · rw [Text.joinSurrogates_eq_nil_iff] at none ⊢
    exact empty none

theorem fileMembers_map {entries : List (Text × Descriptor.File)} :
    fileMembers (entries.map fun entry => (entry.1, entry.2.toDocument.joined)) =
      .ok (entries.map fun entry => (entry.1, some entry.2.joined)) := by
  induction entries with
  | nil => rfl
  | cons entry rest ih =>
    obtain ⟨present, read⟩ := entry.2.ofDocument_toDocument
    rw [List.map_cons, fileMembers, read, ih]
    · rfl
    · exact present

theorem filed_map {entries : List (Text × Descriptor.File)} (settled : ∀ entry ∈ entries, Settled entry) :
    filed (entries.map fun entry => (entry.1, some entry.2)) = .ok entries := by
  induction entries with
  | nil => rfl
  | cons entry rest ih =>
    obtain ⟨first, others⟩ := List.forall_mem_cons.1 settled
    rw [List.map_cons, filed, ih others, named_eq_self first]
    rfl

theorem protoFilesOf_joined {files : OrderedMap Descriptor.File}
    (settled : ∀ entry ∈ files.entries, Settled entry) :
    protoFilesOf
        (some (Document.ofOptions? Descriptor.File.toDocument (some files)).joined) =
      .ok (files.mapEntries joinSurrogates Descriptor.File.joined) := by
  have documents := files.entries_mapEntries_comp joinSurrogates id
    fun f => f.toDocument.joined
  have joined := files.entries_mapEntries_comp joinSurrogates id Descriptor.File.joined
  have still : ∀ entry ∈ (files.mapEntries joinSurrogates Descriptor.File.joined).entries,
      Settled entry := by
    refine OrderedMap.forall_entries_ofList fun entry he => ?_
    obtain ⟨before, hb, rfl⟩ := List.mem_map.1 he
    exact (settled before hb).joined
  have members : fileMembers
      (files.mapEntries joinSurrogates fun f => f.toDocument.joined).entries =
        .ok ((files.mapEntries joinSurrogates Descriptor.File.joined).entries.map
          fun entry => (entry.1, some entry.2)) := by
    rw [show (files.mapEntries joinSurrogates fun f => f.toDocument.joined).entries = _ from
      documents, fileMembers_map]
    rw [show (files.mapEntries joinSurrogates Descriptor.File.joined).entries = _ from joined,
      List.map_map]
    rfl
  rw [Document.joined_ofOptions?, protoFilesOf, members, ok_bind, filed_map still, ok_bind,
    OrderedMap.ofList_entries]
  rfl

/-- The document of a request whose files are settled is read as the request, pairs joined. -/
theorem ofDocument_toDocument {r : Request} (settled : ∀ entry ∈ r.protoFiles.entries, Settled entry) :
    ofDocument r.toDocument.joined = .ok r.joined := by
  have files := protoFilesOf_joined settled
  change (do
    let filesToGenerate ← toTexts? (some (Document.ofTexts? r.filesToGenerate).joined)
    let parameter ← toText? (some []) (some (Document.ofText? r.parameter).joined)
    let protoFiles ← protoFilesOf
      (some (Document.ofOptions? Descriptor.File.toDocument (some r.protoFiles)).joined)
    return ({ filesToGenerate, parameter, protoFiles } : Request)) = _
  rw [toTexts?_joined, ok_bind, toText?_joined, ok_bind, files]
  rfl

theorem integral_toDocument (r : Request) : Integral r.toDocument :=
  .object (by simp [Document.integral_ofText?, Document.integral_ofTexts?,
    Document.integral_ofOptions? Descriptor.File.integral_toDocument])

theorem ofText_toJson_of_settled {r : Request}
    (settled : ∀ entry ∈ r.protoFiles.entries, Settled entry) (indent : Option Int) :
    ofText (r.toJson indent) = .ok r.joined := by
  rw [ofText, toJson, r.integral_toDocument.parse_print indent]
  change (ofDocument r.toDocument.joined).mapError SourceError.shape = _
  rw [ofDocument_toDocument settled]
  rfl

section Read

variable {r : Request}

theorem settled_of_filed {members : List (Text × Option Descriptor.File)}
    {files : List (Text × Descriptor.File)} (h : filed members = .ok files) :
    ∀ entry ∈ files, Settled entry := by
  induction members generalizing files with
  | nil =>
    cases h
    exact nofun
  | cons member rest ih =>
    obtain ⟨name, file⟩ := member
    cases file with
    | none => cases h
    | some file =>
      obtain ⟨others, read, eq⟩ := bind_eq_ok_iff.1 h
      cases eq
      exact List.forall_mem_cons.2 ⟨settled_named name file, ih read⟩

theorem settled_of_ofDocument {d : Document} (h : ofDocument d = .ok r) :
    ∀ entry ∈ r.protoFiles.entries, Settled entry := by
  unfold ofDocument at h
  split at h
  · obtain ⟨_, _, h⟩ := bind_eq_ok_iff.1 h
    obtain ⟨_, _, h⟩ := bind_eq_ok_iff.1 h
    obtain ⟨_, _, h⟩ := bind_eq_ok_iff.1 h
    obtain ⟨files, read, eq⟩ := bind_eq_ok_iff.1 h
    cases eq
    unfold protoFilesOf at read
    split at read
    · cases read
      exact List.forall_mem_nil _
    · cases read
    · obtain ⟨members, _, read⟩ := bind_eq_ok_iff.1 read
      obtain ⟨entries, filed, eq⟩ := bind_eq_ok_iff.1 read
      cases eq
      exact OrderedMap.forall_entries_ofList (settled_of_filed filed)
    · cases read
  · cases h

theorem settled_of_canonical (canonical : r.Canonical) :
    ∀ entry ∈ r.protoFiles.entries, Settled entry := by
  cases canonical with
  | mk _ _ _ named =>
    intro entry he
    obtain ⟨own, some_⟩ := named entry he
    exact ⟨entry.1, own, fun none => absurd none some_⟩

end Read

end SchemaPlugin.Request
