import SchemaPlugin.Proofs.Outline.Layout
import SchemaPlugin.Proofs.Outline.OutputName
import SchemaPlugin.Proofs.Request.Targets

/-!
The outlines of a request: one for each file to generate, or none at all. The outline for a name is
that of the last file of the name in the data, so that it can only be missing if there is no such
file or no place for the output.
-/

namespace SchemaPlugin

namespace Descriptor

theorem EnumValue.Canonical.whole {v : EnumValue} (h : v.Canonical) : v.Whole := by
  cases h
  exact .mk

theorem Enum.Canonical.whole {e : Enum} (h : e.Canonical) : e.Whole := by
  cases h with
  | mk _ values => exact .mk fun v mem => (values v mem).whole

theorem Field.Canonical.whole {f : Field} (h : f.Canonical) : f.Whole := by
  cases h
  exact .mk

theorem Message.Canonical.whole {levels : Nat} {m : Message} (h : m.Canonical levels) :
    m.Whole := by
  induction h with
  | mk _ fields _ enums _ ih =>
    exact .mk (fun f mem => (fields f mem).whole) ih fun e mem => (enums e mem).whole

theorem File.Canonical.whole {f : File} (h : f.Canonical) : f.Whole := by
  cases h with
  | mk _ _ _ messages enums =>
    exact .mk (fun m mem => (messages m mem).whole) fun e mem => (enums e mem).whole

end Descriptor

namespace Outline

open Descriptor (File)
open SchemaPlugin.Path (ofText)
open Wire.Fields (ofReader_field ofReader_nil)
open Request (IsLastNamed filesIn fileNames getFile?_eq_some_iff contains_iff)

/-- The suffix of the outlines of a request. -/
def suffixOf (r : Request) : Text := (r.parameters.get? "suffix").getD defaultSuffix

variable {r : Request} {response : Response} {bytes : Bytes} {names : List Text}
  {suffix : Text} {f : File} {g : GeneratedFile}

theorem exists_render (whole : f.Whole) : ∃ text, render f = .ok text := by
  rw [render, fileLines_eq whole]
  exact ⟨_, rfl⟩

theorem generateFile_eq_ok_iff :
    generateFile suffix f = .ok g ↔
      ∃ output content, outputName (f.name.getD []) suffix = .ok output ∧
        render f = .ok content ∧ g = ⟨some output, some content⟩ := by
  simp only [generateFile, bind_eq_ok_iff, mapError_eq_ok_iff, pure_eq_ok, Except.ok.injEq]
  constructor
  · rintro ⟨output, made, content, shown, rfl⟩
    exact ⟨output, content, made, shown, rfl⟩
  · rintro ⟨output, content, made, shown, rfl⟩
    exact ⟨output, made, content, shown, rfl⟩

/-- A response is made of the outlines of all targets. -/
theorem generate_eq_ok_iff :
    generate r = .ok response ↔ ∃ targets, r.targetFiles = .ok targets ∧ response.error = none ∧
      List.Forall₂ (fun f g => generateFile (suffixOf r) f = .ok g) targets response.files := by
  obtain ⟨error, files⟩ := response
  simp only [generate, bind_eq_ok_iff, mapError_eq_ok_iff, mapM_eq_ok_iff, pure_eq_ok,
    Except.ok.injEq, Response.mk.injEq]
  constructor
  · rintro ⟨targets, found, _, each, rfl, rfl⟩
    exact ⟨targets, found, rfl, each⟩
  · rintro ⟨targets, found, rfl, each⟩
    exact ⟨targets, found, files, each, rfl, rfl⟩

/-- The output for a name: the outline of the last of some files that has the name. -/
def IsOutline (files : List File) (suffix name : Text) (g : GeneratedFile) : Prop :=
  ∃ f output content, IsLastNamed files name f ∧ outputName name suffix = .ok output ∧
    render f = .ok content ∧ g = ⟨some output, some content⟩

theorem exists_targets_iff (accepted : Request.decode bytes = .ok r) {name : Text} :
    (∃ f, r.getFile? name = some f ∧ generateFile suffix f = .ok g) ↔
      IsOutline (filesIn bytes) suffix name g := by
  constructor
  · rintro ⟨f, found, generated⟩
    have last := (getFile?_eq_some_iff accepted).1 found
    obtain ⟨output, content, made, shown_, rfl⟩ := generateFile_eq_ok_iff.1 generated
    rw [last.2.1] at made
    exact ⟨f, output, content, last, made, shown_, rfl⟩
  · rintro ⟨f, output, content, last, made, shown_, rfl⟩
    refine ⟨f, (getFile?_eq_some_iff accepted).2 last, ?_⟩
    rw [generateFile_eq_ok_iff, last.2.1]
    exact ⟨output, content, made, shown_, rfl⟩

/-- A file that was read has an outline, so that all it takes is a place for the output. -/
theorem exists_isOutline (accepted : Request.decode bytes = .ok r) {name output : Text}
    (given : name ∈ fileNames (filesIn bytes)) (made : outputName name suffix = .ok output) :
    ∃ g, IsOutline (filesIn bytes) suffix name g := by
  obtain ⟨f, found⟩ : ∃ f, r.getFile? name = some f :=
    Option.isSome_iff_exists.1 ((contains_iff accepted name).2 given)
  -- No file that was read has a null part, which is all that a render can fail of.
  have canonical : f.Canonical := by
    cases Request.canonical_of_decode accepted with
    | mk _ _ files _ => exact files (name, f) (OrderedMap.mem_of_lookup found)
  obtain ⟨content, shown_⟩ := exists_render canonical.whole
  have last := (getFile?_eq_some_iff accepted).1 found
  exact ⟨_, f, output, content, last, made, shown_, rfl⟩

theorem IsOutline.given {files : List File} {name : Text} (outline : IsOutline files suffix name g) :
    name ∈ fileNames files ∧ ∃ output, outputName name suffix = .ok output := by
  obtain ⟨f, output, content, last, made, -, -⟩ := outline
  have found := Request.lastNamed?_eq_some_iff.2 last
  exact ⟨Request.isSome_lastNamed?_iff.1 (Option.isSome_of_eq_some found), output, made⟩

/-- The response to a request that was read has the outline of each file to generate, in order. -/
theorem generate_eq_ok_iff_isOutline (accepted : Request.decode bytes = .ok r)
    (asked : r.filesToGenerate = some names) :
    generate r = .ok response ↔ response.error = none ∧
      List.Forall₂ (IsOutline (filesIn bytes) (suffixOf r)) names response.files := by
  have outlines := @exists_forall₂_and_iff _ _ _ (fun name f => r.getFile? name = some f)
    (fun f g => generateFile (suffixOf r) f = .ok g) names response.files
  simp only [exists_targets_iff accepted] at outlines
  rw [← outlines, generate_eq_ok_iff]
  simp only [Request.targetFiles_eq_ok_iff asked]
  exact ⟨fun ⟨targets, found, noError, each⟩ => ⟨noError, targets, found, each⟩,
    fun ⟨noError, targets, found, each⟩ => ⟨targets, found, noError, each⟩⟩

/-- Outlines are generated for a request that was read if every file to generate is in the data and
has a place for its output. There is then one for each, in order: the outline of the last file in
the data that has the name. -/
theorem generate_faithful (accepted : Request.decode bytes = .ok r) :
    ∃ names, r.filesToGenerate = some names ∧
      ((∀ name ∈ names, name ∈ fileNames (filesIn bytes)) →
        ∃ targets, r.targetFiles = .ok targets ∧
          List.Forall₂ (IsLastNamed (filesIn bytes)) names targets) ∧
      ((∃ name ∈ names, name ∉ fileNames (filesIn bytes)) →
        r.targetFiles =
          .error (.missing (names.filter fun name => name ∉ fileNames (filesIn bytes)))) ∧
      (∀ response, generate r = .ok response ↔ response.error = none ∧
        List.Forall₂ (IsOutline (filesIn bytes) (suffixOf r)) names response.files) ∧
      ((∃ response, generate r = .ok response) ↔ ∀ name ∈ names,
        name ∈ fileNames (filesIn bytes) ∧
          ∃ output, outputName name (suffixOf r) = .ok output) := by
  obtain ⟨names, asked⟩ := Request.exists_filesToGenerate_of_decode accepted
  refine ⟨names, asked, fun each => ?_, fun ⟨name, mem, absent⟩ => ?_,
    fun response => generate_eq_ok_iff_isOutline accepted asked, ?_, ?_⟩
  · simp only [Request.targetFiles_eq_ok_iff asked, getFile?_eq_some_iff accepted, and_self]
    refine exists_forall₂ fun name mem => ?_
    exact Option.isSome_iff_exists.1 (Request.isSome_lastNamed?_iff.2 (each name mem)) |>.imp
      fun f => Request.lastNamed?_eq_some_iff.1
  · rw [Request.targetFiles_of_missing asked mem (mt (contains_iff accepted name).1 absent)]
    have same (name : Text) : (!r.protoFiles.contains name) =
        decide (name ∉ fileNames (filesIn bytes)) := by
      rw [Bool.eq_iff_iff]
      simp [← contains_iff accepted]
    simp only [same]
  · rintro ⟨response, generated⟩ name mem
    obtain ⟨-, outlines⟩ := (generate_eq_ok_iff_isOutline accepted asked).1 generated
    obtain ⟨g, -, outline⟩ := (exists_of_forall₂ outlines).1 name mem
    exact outline.given
  · intro each
    obtain ⟨files, outlines⟩ := exists_forall₂ fun name mem =>
      let ⟨given, _, made⟩ := each name mem
      exists_isOutline accepted given made
    exact ⟨{ files }, (generate_eq_ok_iff_isOutline accepted asked).2 ⟨rfl, outlines⟩⟩

section Repeated

/-- A name twice among the files to generate, and twice among the files, the second time in a
package. -/
def repeated : Bytes :=
  [0x0A, 0x01, 0x61, 0x0A, 0x01, 0x61, 0x7A, 0x03, 0x0A, 0x01, 0x61,
    0x7A, 0x06, 0x0A, 0x01, 0x61, 0x12, 0x01, 0x70]

def bare : File := { name := some "a" }

def packaged : File := { name := some "a", package := some "p" }

theorem decode_a (start : Nat) : Wire.decodeText [0x61] start = .ok "a" :=
  Wire.decodeText_eq_ok_iff.2 (Utf8.decode_eq_ok_iff.2 ⟨by decide, by decide⟩)

theorem decode_bare : File.decode [0x0A, 0x01, 0x61] = .ok bare := by
  have fields : Wire.Fields.ofBytes [0x0A, 0x01, 0x61] =
      .field ⟨1, .lengthDelimited [0x61], 1⟩ .done := by
    rw [Wire.Fields.ofBytes, ofReader_field rfl rfl]
    change Wire.Fields.field _ (Wire.Fields.ofReader ⟨3, []⟩) = _
    rw [ofReader_nil]
    rfl
  rw [File.decode, fields]
  simp [Wire.Fields.fold, Wire.Fields.noGuard, File.step, decode_a, bare]

theorem decode_packaged : File.decode [0x0A, 0x01, 0x61, 0x12, 0x01, 0x70] = .ok packaged := by
  have fields : Wire.Fields.ofBytes [0x0A, 0x01, 0x61, 0x12, 0x01, 0x70] =
      .field ⟨1, .lengthDelimited [0x61], 1⟩ (.field ⟨2, .lengthDelimited [0x70], 4⟩ .done) := by
    rw [Wire.Fields.ofBytes, ofReader_field rfl rfl, ofReader_field rfl rfl]
    change Wire.Fields.field _ (.field _ (Wire.Fields.ofReader ⟨6, []⟩)) = _
    rw [ofReader_nil]
    rfl
  have p (start : Nat) : Wire.decodeText [0x70] start = .ok "p" :=
    Wire.decodeText_eq_ok_iff.2 (Utf8.decode_eq_ok_iff.2 ⟨by decide, by decide⟩)
  rw [File.decode, fields]
  simp [Wire.Fields.fold, Wire.Fields.noGuard, File.step, decode_a, p, packaged]

theorem fields_repeated : Wire.Fields.ofBytes repeated =
    .field ⟨1, .lengthDelimited [0x61], 1⟩ (.field ⟨1, .lengthDelimited [0x61], 4⟩
      (.field ⟨15, .lengthDelimited [0x0A, 0x01, 0x61], 7⟩
        (.field ⟨15, .lengthDelimited [0x0A, 0x01, 0x61, 0x12, 0x01, 0x70], 12⟩ .done))) := by
  rw [Wire.Fields.ofBytes, ofReader_field rfl rfl, ofReader_field rfl rfl, ofReader_field rfl rfl,
    ofReader_field rfl rfl]
  change Wire.Fields.field _ (.field _ (.field _ (.field _ (Wire.Fields.ofReader ⟨19, []⟩)))) = _
  rw [ofReader_nil]
  rfl

theorem filesIn_repeated : filesIn repeated = [bare, packaged] := by
  rw [filesIn, fields_repeated]
  simp [Request.filesOf, Request.fileOf?, decode_bare, decode_packaged, Except.toOption]

theorem decode_repeated : Request.decode repeated = .ok
    { filesToGenerate := some ["a", "a"], protoFiles := .ofList [("a", packaged)] } := by
  rw [Request.decode, fields_repeated]
  simp [Wire.Fields.fold, Wire.Fields.noGuard, Request.step, decode_a, decode_bare,
    decode_packaged]
  rfl

theorem generate_faithful_repeated :
    ∃ r, Request.decode repeated = .ok r ∧
      (∃ targets, r.targetFiles = .ok targets ∧
        List.Forall₂ (IsLastNamed [bare, packaged]) ["a", "a"] targets) ∧
      generate r = .ok { files :=
        [⟨some "a.outline.txt", some "file a\npackage p\n"⟩,
          ⟨some "a.outline.txt", some "file a\npackage p\n"⟩] } := by
  obtain ⟨names, asked, found, -, responses, -⟩ := generate_faithful decode_repeated
  cases asked
  rw [filesIn_repeated] at found responses
  have last : IsLastNamed [bare, packaged] "a" packaged :=
    ⟨by decide, rfl, [bare], [], rfl, List.forall_mem_nil _⟩
  have outline : IsOutline [bare, packaged] ".outline.txt" "a"
      ⟨some "a.outline.txt", some "file a\npackage p\n"⟩ :=
    ⟨packaged, _, _, last, by decide, by decide +kernel, rfl⟩
  exact ⟨_, decode_repeated, found (by decide),
    (responses _).2 ⟨rfl, .cons outline (.cons outline .nil)⟩⟩

end Repeated

/-- The names of the outputs of a response are made of the names of the files to generate. -/
theorem forall₂_outputName (asked : r.filesToGenerate = some names)
    (own : ∀ name ∈ names, ∃ f, r.getFile? name = some f ∧ f.name = some name)
    (generated : generate r = .ok response) :
    List.Forall₂ (fun name g => ∃ output, outputName name (suffixOf r) = .ok output ∧
      g.name = some output) names response.files := by
  obtain ⟨targets, found, -, outlines⟩ := generate_eq_ok_iff.1 generated
  rw [Request.targetFiles_eq_ok_iff asked] at found
  have both := exists_forall₂_and_iff.1 ⟨targets, found, outlines⟩
  refine ((List.forall₂_and_left names response.files).2 ⟨own, both⟩).imp ?_
  rintro name g ⟨⟨f, found, given⟩, f', found', generated⟩
  obtain rfl : f = f' := Option.some.inj (found.symm.trans found')
  obtain ⟨output, content, made, -, rfl⟩ := generateFile_eq_ok_iff.1 generated
  rw [given] at made
  exact ⟨output, made, rfl⟩

/-- The outputs of a response have names of their own if no two files to generate have the same path
but for the extension, and only then. So it is for different names that are written as their paths
are and have the same extension. -/
theorem outputs_distinct_iff (asked : r.filesToGenerate = some names)
    (own : ∀ name ∈ names, ∃ f, r.getFile? name = some f ∧ f.name = some name)
    (generated : generate r = .ok response) :
    ((response.files.map GeneratedFile.name).Nodup ↔
        (names.map fun name => (ofText name).withoutExtension).Nodup) ∧
      ∀ extension, names.Nodup →
        (∀ name ∈ names, (ofText name).toText = name ∧ (ofText name).HasExtension extension) →
        (response.files.map GeneratedFile.name).Nodup := by
  have distinct : (response.files.map GeneratedFile.name).Nodup ↔
      (names.map fun name => (ofText name).withoutExtension).Nodup := by
    refine (nodup_map_iff_of_forall₂ (forall₂_outputName asked own generated)
      fun name name' g g' made made' => ?_).symm
    obtain ⟨output, made, eq⟩ := made
    obtain ⟨output', made', eq'⟩ := made'
    rw [eq, eq', Option.some.injEq, outputName_inj made made']
  refine ⟨distinct, fun extension nodup plain => distinct.2 ?_⟩
  refine nodup.map_on fun name mem name' mem' same => ?_
  obtain ⟨written, ended⟩ := plain name mem
  obtain ⟨written', ended'⟩ := plain name' mem'
  rw [← written, ended.eq_of_withoutExtension ended' same, written']

section Siblings

/-- A request for some files, which have no more than their names. -/
def requestFor (names : List Text) : Request where
  filesToGenerate := some names
  protoFiles := .ofList (names.map fun name => (name, { name := some name }))

theorem exists_getFile?_requestFor (nodup : names.Nodup) :
    ∀ name ∈ names, ∃ f, (requestFor names).getFile? name = some f ∧ f.name = some name := by
  intro name mem
  have keys : (names.map fun name => (name, ({ name := some name } : File))).map Prod.fst =
      names := by
    rw [List.map_map]
    exact List.map_id names
  have entries : (requestFor names).protoFiles.entries =
      names.map fun name => (name, { name := some name }) :=
    OrderedMap.entries_ofList (keys.symm ▸ nodup)
  refine ⟨{ name := some name }, ?_, rfl⟩
  refine (OrderedMap.lookup_eq_some_iff (requestFor names).protoFiles.nodup).2 ?_
  rw [entries]
  exact List.mem_map_of_mem mem

theorem outputs_distinct_iff_nested :
    ∃ response, generate (requestFor ["a/b.proto", "a.b/b.proto", "b.proto"]) = .ok response ∧
      (response.files.map GeneratedFile.name).Nodup := by
  have own := exists_getFile?_requestFor
    (show (["a/b.proto", "a.b/b.proto", "b.proto"] : List Text).Nodup by decide)
  have generated : generate (requestFor ["a/b.proto", "a.b/b.proto", "b.proto"]) = .ok { files :=
      [⟨some "a/b.outline.txt", some "file a/b.proto\n"⟩,
        ⟨some "a.b/b.outline.txt", some "file a.b/b.proto\n"⟩,
        ⟨some "b.outline.txt", some "file b.proto\n"⟩] } := by
    decide +kernel
  refine ⟨_, generated, (outputs_distinct_iff rfl own generated).2 ".proto" (by decide) ?_⟩
  intro name mem
  fin_cases mem
  · exact ⟨by decide, ⟨.none, ["a"]⟩, "b.proto", by decide, by decide⟩
  · exact ⟨by decide, ⟨.none, ["a.b"]⟩, "b.proto", by decide, by decide⟩
  · exact ⟨by decide, ⟨.none, []⟩, "b.proto", by decide, by decide⟩

/-- Two files with one stem have one output. -/
theorem outputs_clash :
    (["a.proto", "a.schema"] : List Text).Nodup ∧
      (∀ name ∈ (["a.proto", "a.schema"] : List Text),
        ∃ f, (requestFor ["a.proto", "a.schema"]).getFile? name = some f ∧ f.name = some name) ∧
      ∃ response, generate (requestFor ["a.proto", "a.schema"]) = .ok response ∧
        ¬(response.files.map GeneratedFile.name).Nodup := by
  refine ⟨by decide, exists_getFile?_requestFor (by decide),
    { files := [⟨some "a.outline.txt", some "file a.proto\n"⟩,
      ⟨some "a.outline.txt", some "file a.schema\n"⟩] }, by decide +kernel, by decide⟩

end Siblings

end Outline

end SchemaPlugin
