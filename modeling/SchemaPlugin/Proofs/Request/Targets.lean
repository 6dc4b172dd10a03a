import SchemaPlugin.Proofs.OrderedMap
import SchemaPlugin.Proofs.Request.Canonical

/-!
The files to generate. Every file that a request is given is filed under the name of the file, in
the place of an earlier one of that name, so that a name leads to the last file that has it; a file
without a name is not to be had.
-/

namespace SchemaPlugin.Request

open Descriptor (File)
open Wire.Fields (fold noGuard)

/-- The file that a field gives. -/
def fileOf? (f : Wire.Field) : Option File :=
  match f.number, f.value with
  | 15, .lengthDelimited payload => (File.decode payload).toOption
  | _, _ => none

/-- The files that fields give, in their order. -/
def filesOf : Wire.Fields → List File
  | .field f rest => (fileOf? f).toList ++ filesOf rest
  | _ => []

/-- The files in bytes, in their order. Some may have the same name, and some none. -/
def filesIn (bytes : Bytes) : List File := filesOf (.ofBytes bytes)

/-- The names of some files, those of nameless ones left out. -/
def fileNames (files : List File) : List Text := (files.filterMap File.name).filter (· ≠ [])

/-- The last of some files that has a name, which is not empty. -/
def IsLastNamed (files : List File) (name : Text) (f : File) : Prop :=
  name ≠ [] ∧ f.name = some name ∧
    ∃ front back, files = front ++ f :: back ∧ ∀ g ∈ back, g.name ≠ some name

section Last

variable {files : List File} {name : Text} {f : File}

def lastNamed? (files : List File) (name : Text) : Option File :=
  files.reverse.find? fun f => f.name = some name ∧ name ≠ []

theorem lastNamed?_append (files files' : List File) (name : Text) :
    lastNamed? (files ++ files') name = (lastNamed? files' name).or (lastNamed? files name) := by
  rw [lastNamed?, List.reverse_append, List.find?_append]
  rfl

theorem lastNamed?_eq_some_iff : lastNamed? files name = some f ↔ IsLastNamed files name f := by
  rw [lastNamed?, List.find?_eq_some_iff_append]
  constructor
  · rintro ⟨has, back, front, eq, others⟩
    obtain ⟨own, nonempty⟩ := of_decide_eq_true has
    refine ⟨nonempty, own, front.reverse, back.reverse, ?_, fun g mem same => ?_⟩
    · rw [← List.reverse_reverse files, eq]
      simp
    · simpa [same, nonempty] using others g (List.mem_reverse.1 mem)
  · rintro ⟨nonempty, own, front, back, rfl, others⟩
    refine ⟨decide_eq_true ⟨own, nonempty⟩, back.reverse, front.reverse, by simp, fun g mem => ?_⟩
    simpa [nonempty] using others g (List.mem_reverse.1 mem)

theorem isSome_lastNamed?_iff : (lastNamed? files name).isSome ↔ name ∈ fileNames files := by
  rw [lastNamed?, List.find?_isSome, fileNames, List.mem_filter, List.mem_filterMap]
  simp only [List.mem_reverse, decide_eq_true_eq]
  exact ⟨fun ⟨f, mem, own, nonempty⟩ => ⟨⟨f, mem, own⟩, nonempty⟩,
    fun ⟨⟨f, mem, own⟩, nonempty⟩ => ⟨f, mem, own, nonempty⟩⟩

end Last

variable {r r' : Request} {bytes : Bytes} {names : List Text}

theorem getFile?_addFile (r : Request) {file : File} {own : Text} (given : file.name = some own)
    (nonempty : own ≠ []) (name : Text) :
    (r.addFile file).getFile? name = (lastNamed? [file] name).or (r.getFile? name) := by
  change (r.protoFiles.insert (file.name.getD []) file).get? name = _
  rw [given, Option.getD_some, OrderedMap.get?_insert, lastNamed?, List.reverse_singleton,
    List.find?_singleton, given]
  by_cases same : name = own
  · rw [if_pos same, if_pos (by simp [same, nonempty])]
    rfl
  · rw [if_neg same, if_neg (by simp [Ne.symm same])]
    rfl

theorem lastNamed?_nameless {file : File} (given : file.name = some []) (name : Text) :
    lastNamed? [file] name = none := by
  rw [lastNamed?, List.reverse_singleton, List.find?_singleton, given, if_neg (by simp [eq_comm])]

/-- A field that gives a file gives it to the name of the file, and one that gives none leaves all
names what they have. -/
theorem getFile?_of_step {f : Wire.Field} (stepped : r.step f = .ok r') (name : Text) :
    r'.getFile? name = (lastNamed? (fileOf? f).toList name).or (r.getFile? name) := by
  obtain ⟨number, value, start⟩ := f
  simp only [step] at stepped
  split at stepped
  · obtain ⟨_, -, eq⟩ := bind_eq_ok_iff.1 stepped
    cases eq
    rfl
  · obtain ⟨_, -, eq⟩ := bind_eq_ok_iff.1 stepped
    cases eq
    rfl
  · obtain ⟨file, read, eq⟩ := bind_eq_ok_iff.1 stepped
    -- A file that was read has a name, though it may be empty.
    obtain ⟨own, given⟩ : ∃ own, file.name = some own := by
      cases Descriptor.File.canonical_of_decode read
      exact ⟨_, rfl⟩
    simp only [fileOf?, read, Except.toOption, Option.toList_some]
    by_cases nameless : own = []
    · rw [if_pos (nameless ▸ given)] at eq
      cases eq
      rw [lastNamed?_nameless (nameless ▸ given), Option.none_or]
    · rw [if_neg (by rw [given]; simpa using nameless)] at eq
      cases eq
      exact getFile?_addFile r given nameless name
  · rename_i noFile
    have none_ : fileOf? ⟨number, value, start⟩ = none := by
      unfold fileOf?
      split
      · rename_i payload fifteen delimited
        exact absurd delimited (noFile payload fifteen)
      · rfl
    cases stepped
    rw [none_]
    rfl

theorem getFile?_of_fold {fields : Wire.Fields} (read : fold noGuard step r fields = .ok r')
    (name : Text) : r'.getFile? name = (lastNamed? (filesOf fields) name).or (r.getFile? name) := by
  induction fields generalizing r with
  | done =>
    cases read
    rfl
  | badTag e => cases read
  | badValue tag start e => cases read
  | field f rest ih =>
    obtain ⟨mid, stepped, later⟩ :
        ∃ mid, r.step f = .ok mid ∧ fold noGuard step mid rest = .ok r' := bind_eq_ok_iff.1 read
    rw [ih later, getFile?_of_step stepped, filesOf, lastNamed?_append, Option.or_assoc]

/-- In a request that was read, a name leads to the last file of that name in the data. -/
theorem getFile?_eq_some_iff (accepted : decode bytes = .ok r) {name : Text} {f : File} :
    r.getFile? name = some f ↔ IsLastNamed (filesIn bytes) name f := by
  have nothing : getFile? {} name = none := rfl
  rw [getFile?_of_fold accepted, nothing, Option.or_none, ← lastNamed?_eq_some_iff, filesIn]

theorem contains_iff (accepted : decode bytes = .ok r) (name : Text) :
    r.protoFiles.contains name = true ↔ name ∈ fileNames (filesIn bytes) := by
  have nothing : getFile? {} name = none := rfl
  have found := getFile?_of_fold accepted name
  rw [nothing, Option.or_none] at found
  rw [← isSome_lastNamed?_iff, filesIn, ← found]
  rfl

section Targets

variable (asked : r.filesToGenerate = some names)
include asked

theorem targetFiles_of_missing {name : Text} (mem : name ∈ names)
    (absent : ¬r.protoFiles.contains name = true) :
    r.targetFiles = .error (.missing (names.filter fun name => !r.protoFiles.contains name)) := by
  have missing : name ∈ names.filter (fun name => !r.protoFiles.contains name) :=
    List.mem_filter.2 ⟨mem, by simpa using absent⟩
  rw [targetFiles, asked]
  simp only
  split
  · rename_i none_
    rw [none_] at missing
    cases missing
  · rfl

/-- There are targets if every name leads to a file. -/
theorem targetFiles_eq_ok_iff {targets : List File} :
    r.targetFiles = .ok targets ↔
      List.Forall₂ (fun name f => r.getFile? name = some f) names targets := by
  by_cases each : ∀ name ∈ names, r.protoFiles.contains name = true
  · have missing : names.filter (fun name => !r.protoFiles.contains name) = [] :=
      List.filter_eq_nil_iff.2 fun name mem => by simp [each name mem]
    rw [targetFiles, asked]
    simp only [missing, Except.ok.injEq]
    exact filterMap_eq_iff_forall₂ each
  · obtain ⟨name, mem, absent⟩ := not_forall₂.1 each
    rw [targetFiles_of_missing asked mem absent]
    refine iff_of_false nofun fun related => absent ?_
    obtain ⟨f, -, found⟩ := (exists_of_forall₂ related).1 name mem
    exact Option.isSome_of_eq_some found

end Targets

end SchemaPlugin.Request
