import SchemaPlugin.Proofs.MessageType.Basic
import SchemaPlugin.Proofs.OrderedMap
import SchemaPlugin.Proofs.Request.Canonical

/-!
Requests one after the other. What a field adds to a request does not depend on what was there
before, so that reading goes through the merge of two requests: the second half of the bytes adds to
the first what it is read as by itself.
-/

namespace SchemaPlugin

namespace Request

open Wire (HasField)
open Wire.Fields (fold noGuard)

/-- A field that gives the parameter. -/
def parameterTag : Wire.Tag := ⟨2, .lengthDelimited⟩

/-- The request `r` after the request `a`, with that parameter. -/
def onto (a r : Request) (parameter : Option Text) : Request where
  filesToGenerate := a.filesToGenerate.bind fun names => r.filesToGenerate.map (names ++ ·)
  parameter := parameter
  protoFiles := a.protoFiles.update r.protoFiles

theorem onto_blank {a : Request} {names : List Text} (h : a.filesToGenerate = some names) :
    a.onto {} a.parameter = a := by
  obtain ⟨_, parameter, files⟩ := a
  cases h
  simp [onto]

theorem onto_addFileToGenerate (a r : Request) (parameter : Option Text) (name : Text) :
    a.onto (r.addFileToGenerate name) parameter =
      (a.onto r parameter).addFileToGenerate name := by
  simp only [onto, addFileToGenerate, Descriptor.append]
  cases a.filesToGenerate <;> cases r.filesToGenerate <;> simp

theorem onto_addFile (a r : Request) (parameter : Option Text) (file : Descriptor.File) :
    a.onto (r.addFile file) parameter = (a.onto r parameter).addFile file := by
  simp only [onto, addFile, OrderedMap.update_insert]

/-- To take a field and to come after another request can be done in either order. -/
theorem step_onto (a r : Request) (parameter : Option Text) (f : Wire.Field) :
    (a.onto r parameter).step f = (r.step f).map fun next =>
      a.onto next (if f.tag = parameterTag then next.parameter else parameter) := by
  obtain ⟨number, value, start⟩ := f
  simp only [step]
  split
  · rename_i payload
    cases Wire.decodeText payload start with
    | error e => rfl
    | ok name => exact congrArg Except.ok (onto_addFileToGenerate a r parameter name).symm
  · rename_i payload
    cases Wire.decodeText payload start with
    | error e => rfl
    | ok text => rfl
  · rename_i payload
    cases Descriptor.File.decode payload with
    | error e => rfl
    | ok file =>
      simp only [ok_bind, pure_eq_ok, Except.map]
      split_ifs with nameless other other
      · cases other
      · rfl
      · cases other
      · rw [onto_addFile]
  · rename_i unknown _
    have other : Wire.Field.tag ⟨number, value, start⟩ ≠ parameterTag := by
      intro same
      cases value <;> cases same
      exact unknown _ rfl rfl
    simp only [if_neg other, Except.map]

theorem parameter_of_step {r next : Request} {f : Wire.Field} (other : f.tag ≠ parameterTag)
    (h : r.step f = .ok next) : next.parameter = r.parameter := by
  rw [step] at h
  split at h
  · obtain ⟨name, -, named⟩ := bind_eq_ok_iff.1 h
    cases named
    rfl
  · rename_i number value
    exact absurd (by rw [Wire.Field.tag, number, value]; rfl) other
  · obtain ⟨file, -, filed⟩ := bind_eq_ok_iff.1 h
    split_ifs at filed <;> cases filed <;> rfl
  · cases h
    rfl

/-- A run that gives no parameter leaves the one that was there. -/
theorem parameter_of_fold {r last : Request} {fields : Wire.Fields}
    (absent : fields.has parameterTag = false) (h : fold noGuard step r fields = .ok last) :
    last.parameter = r.parameter := by
  induction fields generalizing r with
  | done =>
    cases h
    rfl
  | badTag e => cases h
  | badValue tag start e => cases h
  | field f rest ih =>
    rw [Wire.Fields.has, Bool.or_eq_false_iff, decide_eq_false_iff_not] at absent
    obtain ⟨next, stepped, read⟩ : ∃ next, r.step f = .ok next ∧ fold noGuard step next rest = _ :=
      bind_eq_ok_iff.1 h
    exact (ih absent.2 read).trans (parameter_of_step absent.1 stepped)

/-- Reading goes through the merge of two requests. -/
theorem fold_onto (a r : Request) (parameter : Option Text) (fields : Wire.Fields) :
    fold noGuard step (a.onto r parameter) fields = (fold noGuard step r fields).map fun last =>
      a.onto last (if fields.has parameterTag then last.parameter else parameter) := by
  induction fields generalizing r parameter with
  | done => rfl
  | badTag e => rfl
  | badValue tag start e => rfl
  | field f rest ih =>
    change (step _ f >>= _) = (step r f >>= _).map _
    rw [step_onto]
    cases stepped : r.step f with
    | error e => rfl
    | ok next =>
      change fold noGuard step (a.onto next _) rest = (fold noGuard step next rest).map _
      rw [ih]
      cases read : fold noGuard step next rest with
      | error e => rfl
      | ok last =>
        refine congrArg (fun p => Except.ok (a.onto last p)) ?_
        cases later : rest.has parameterTag with
        | true => rw [Wire.Fields.has, later, Bool.or_true]; rfl
        | false =>
          rw [parameter_of_fold later read, Wire.Fields.has, later, Bool.or_false]
          simp

/-- `r` is the request `a` with what the bytes, read as `b` by themselves, add to it: names after
names, files in place of those of the same name and after the others, and the parameter if they
give one. -/
structure Merges (a : Request) (bytes : Bytes) (b r : Request) : Prop where
  filesToGenerate : ∃ names names', a.filesToGenerate = some names ∧
    b.filesToGenerate = some names' ∧ r.filesToGenerate = some (names ++ names')
  protoFiles : r.protoFiles = a.protoFiles.update b.protoFiles
  order : r.protoFiles.keys =
    a.protoFiles.keys ++ b.protoFiles.keys.filter (· ∉ a.protoFiles.keys)
  found : ∀ name, r.getFile? name = (b.getFile? name).or (a.getFile? name)
  given : HasField ⟨2, .lengthDelimited⟩ bytes → r.parameter = b.parameter
  kept : ¬HasField ⟨2, .lengthDelimited⟩ bytes → r.parameter = a.parameter

theorem merges_onto {a b : Request} {bytes : Bytes} {names names' : List Text}
    (ha : a.filesToGenerate = some names) (hb : b.filesToGenerate = some names') :
    Merges a bytes b (a.onto b
      (if (Wire.Fields.ofBytes bytes).has parameterTag then b.parameter else a.parameter)) where
  filesToGenerate := ⟨names, names', ha, hb, by simp [onto, ha, hb]⟩
  protoFiles := rfl
  order := OrderedMap.keys_update a.protoFiles b.protoFiles
  found := OrderedMap.get?_update a.protoFiles b.protoFiles
  given present := if_pos (Wire.Fields.has_iff.2 present)
  kept absent := if_neg (mt Wire.Fields.has_iff.1 absent)

/-- Bytes after those of a request are read as they are by themselves, and merged into it. -/
theorem decode_append {front : Bytes} {a : Request} (accepted : decode front = .ok a)
    (back : Bytes) :
    ((∃ r, decode (front ++ back) = .ok r) ↔ ∃ b, decode back = .ok b) ∧
      ∀ b, decode back = .ok b → ∃ r, decode (front ++ back) = .ok r ∧ Merges a back b r := by
  obtain ⟨names, ha⟩ := exists_filesToGenerate_of_decode accepted
  have whole := Wire.Fields.wholeFields_of_run (Wire.Fields.run_of_fold accepted)
  have goesOn (r : Request) : decode (front ++ back) = .ok r ↔
      fold noGuard step a (Wire.Fields.ofBytes back) = .ok r :=
    (MessageType.request.steady.fold_append_iff whole).trans ⟨
      fun ⟨mid, read, tail⟩ => Except.ok.inj (read.symm.trans accepted) ▸ tail,
      fun tail => ⟨a, accepted, tail⟩⟩
  rw [← onto_blank ha, fold_onto] at goesOn
  change ∀ r, _ ↔ (decode back).map _ = .ok r at goesOn
  cases read : decode back with
  | error e =>
    rw [read] at goesOn
    refine ⟨⟨fun ⟨r, whole⟩ => ?_, fun ⟨_, h⟩ => nomatch h⟩, fun _ h => nomatch h⟩
    exact nomatch (goesOn r).1 whole
  | ok b =>
    rw [read] at goesOn
    obtain ⟨names', hb⟩ := exists_filesToGenerate_of_decode read
    have merged := (goesOn _).2 rfl
    refine ⟨⟨fun _ => ⟨b, rfl⟩, fun _ => ⟨_, merged⟩⟩, fun b' same => ?_⟩
    cases same
    exact ⟨_, merged, merges_onto ha hb⟩

/-- Two requests with a parameter, of which the second one is empty. -/
theorem decode_append_emptied : ∃ a b r, decode roundabout = .ok a ∧ decode [0x12, 0x00] = .ok b ∧
    decode (roundabout ++ [0x12, 0x00]) = .ok r ∧ Merges a [0x12, 0x00] b r ∧
      a.parameter = some "b" ∧ r.parameter = some [] := by
  have fields : Wire.Fields.ofBytes [0x12, 0x00] = .field ⟨2, .lengthDelimited [], 1⟩ .done := by
    rw [Wire.Fields.ofBytes, Wire.Fields.ofReader_field rfl rfl]
    change Wire.Fields.field _ (Wire.Fields.ofReader ⟨2, []⟩) = _
    rw [Wire.Fields.ofReader_nil]
    rfl
  have emptied : decode [0x12, 0x00] = .ok { parameter := some [] } := by
    have text (start : Nat) : Wire.decodeText [] start = .ok [] :=
      Wire.decodeText_eq_ok_iff.2 (Utf8.decode_eq_ok_iff.2 ⟨List.forall_mem_nil _, rfl⟩)
    rw [decode, fields]
    simp [fold, noGuard, step, text]
  have given : HasField ⟨2, .lengthDelimited⟩ [0x12, 0x00] :=
    Wire.Fields.has_iff.1 (by rw [fields]; rfl)
  obtain ⟨r, read, merges⟩ := (decode_append decode_roundabout _).2 _ emptied
  exact ⟨_, _, r, decode_roundabout, emptied, read, merges, rfl, merges.given given⟩

end Request

end SchemaPlugin
