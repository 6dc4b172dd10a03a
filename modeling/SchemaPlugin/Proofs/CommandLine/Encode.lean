import Mathlib
import SchemaPlugin.Proofs.CommandLine.JsonFile
import SchemaPlugin.Proofs.Request.Canonical

/-!
JSON in place of the binary form. A request that is written by hand and encoded is read from the
bytes as it was, if every file in it is filed under its own name. A plugin then answers the bytes as
it answers the JSON.
-/

namespace SchemaPlugin

namespace Descriptor

open Wire (word64)

theorem emod_word64_eq_self_iff {n : Int} : n % word64 = n ↔ 0 ≤ n ∧ n < word64 :=
  ⟨fun h => h ▸ ⟨Int.emod_nonneg n (by decide), Int.emod_lt_of_pos n (by decide)⟩,
    fun ⟨low, high⟩ => Int.emod_eq_of_lt low high⟩

end Descriptor

namespace Request

/-- A request without null parts but packages and type names, with numbers that the binary form
keeps, known options, texts without surrogates, and messages nested no deeper than is read. How the
files are filed is left open. -/
inductive Exact : Request → Prop
  | mk {names : List Text} {parameter : Text} {files : OrderedMap Descriptor.File}
      (namesEncodable : ∀ t ∈ names, t.Encodable) (parameterEncodable : parameter.Encodable)
      (filesCanonical : ∀ entry ∈ files.entries, entry.2.Canonical) :
      Exact ⟨some names, some parameter, files⟩

/-- Every file has a name and is filed under it. -/
def FiledByName (r : Request) : Prop :=
  ∀ entry ∈ r.protoFiles.entries, entry.2.name = some entry.1 ∧ entry.1 ≠ []

variable {r : Request}

theorem Exact.canonical (exact_ : r.Exact) (filed : r.FiledByName) : r.Canonical := by
  cases exact_ with
  | mk namesEncodable parameterEncodable files =>
    exact .mk namesEncodable parameterEncodable files filed

theorem Exact.wellTyped (exact_ : r.Exact) : r.WellTyped := by
  cases exact_ with
  | mk namesEncodable parameterEncodable files =>
    refine .mk namesEncodable parameterEncodable fun f hf => ?_
    obtain ⟨entry, he, rfl⟩ := List.mem_map.1 hf
    exact (files entry he).wellTyped

end Request

namespace CommandLine

open Request (ofText ofBytes ofBytes_of_ofText)

variable {r : Request} {source bytes : Bytes}

/-- The bytes of a JSON text that a request is read from: whatever they are read as, the UTF-8 of a
text, or a file. -/
inductive JsonSource (r : Request) : Bytes → Prop
  | bytes {source : Bytes} (read : ofBytes source = .ok r) : JsonSource r source
  | text {t : Text} (plain : t.Encodable) (read : ofText t = .ok r) :
      JsonSource r (t.flatMap Utf8.bytesOf)
  | file {source : Bytes} (read : readRequest .json source = .ok r) : JsonSource r source

theorem JsonSource.ofBytes (json : JsonSource r source) : Request.ofBytes source = .ok r := by
  cases json with
  | bytes read => exact read
  | text plain read => exact ofBytes_of_ofText (Utf8.decode_eq_ok_iff.2 ⟨plain, rfl⟩) read
  | file read => exact (readRequest_json_eq_ok_iff.1 read).2

/-- A plugin does the same for the same request, whichever form it comes in. -/
theorem run_eq_of_ofBytes (binary : Request.decode bytes = .ok r)
    (json : Request.ofBytes source = .ok r) (generate : Plugin.Generator) (settings : Settings) :
    Plugin.run generate { settings with jsonInput := false } bytes =
      Plugin.run generate { settings with jsonInput := true } source := by
  have responses : Plugin.respond generate { settings with jsonInput := false } bytes =
      Plugin.respond generate { settings with jsonInput := true } source := by
    simp only [Plugin.respond, Plugin.decodeInput, binary, json]
    rfl
  rw [Plugin.run, Plugin.run, responses]
  rfl

/-- What the command that encodes a file writes is the encoded request. -/
theorem encodeFile_eq {files : Files} {input output : Text}
    (found : files.read (Path.ofText input) = .ok source)
    (read : readRequest .json source = .ok r) (written : r.encode = .ok bytes) :
    encodeFile input output files =
      (do
        let files ← (files.write (Path.ofText output) bytes).mapError .file
        return (bytes.length, files)) := by
  rw [encodeFile_eq_bind found, read, ok_bind, written]
  rfl

/-- The encoded request, which the command writes for a file, is read as it was; and a plugin, given
it or the JSON, leaves the same. -/
theorem run_encoded (exact_ : r.Exact) (filed : r.FiledByName) :
    ∃ bytes, r.encode = .ok bytes ∧
      (∀ (files : Files) (input output : Text) (source : Bytes),
        files.read (Path.ofText input) = .ok source → readRequest .json source = .ok r →
          encodeFile input output files =
            (do
              let files ← (files.write (Path.ofText output) bytes).mapError .file
              return (bytes.length, files))) ∧
      (Addressable bytes → Request.decode bytes = .ok r ∧
        ∀ source, JsonSource r source → ∀ (generate : Plugin.Generator) (settings : Settings),
          Plugin.run generate { settings with jsonInput := false } bytes =
            Plugin.run generate { settings with jsonInput := true } source) := by
  obtain ⟨bytes, written, back⟩ := (exact_.canonical filed).exists_encode
  refine ⟨bytes, written, fun _ _ _ _ found read => encodeFile_eq found read written, fun size => ?_⟩
  have binary := back size
  exact ⟨binary, fun source json => run_eq_of_ofBytes binary json.ofBytes⟩

/-- A request with the least number that the binary form keeps and the greatest type. -/
def extreme : Request where
  filesToGenerate := some ["a"]
  protoFiles := .ofList [("a", {
    name := some "a"
    messages := some [some {
      name := some "M"
      fields := some [some {
        name := some "f", number := some (.int (-2 ^ 63)), type := some (.int (2 ^ 64 - 1)) }] }] })]

/-- The request as one writes it, without a name of its own for the file. -/
def extremeText : Text :=
  ("\x7b\"filesToGenerate\": [\"a\"], \"protoFiles\": \x7b\"a\": \x7b\"messages\": [\x7b" ++
    "\"name\": \"M\", \"fields\": [\x7b\"name\": \"f\", " ++
    "\"number\": -9223372036854775808, \"type\": 18446744073709551615\x7d]\x7d]\x7d\x7d\x7d" : String)

theorem run_encoded_extreme :
    ofText extremeText = .ok extreme ∧ ∃ bytes, extreme.encode = .ok bytes ∧
      Request.decode bytes = .ok extreme ∧
      Plugin.run Plugin.outlines {} bytes =
        Plugin.run Plugin.outlines { jsonInput := true } (extremeText.flatMap Utf8.bytesOf) := by
  have read : ofText extremeText = .ok extreme := by cbv
  have exact_ : extreme.Exact := by
    refine .mk (by decide) (by decide) fun entry he => ?_
    obtain rfl := List.mem_singleton.1 he
    refine @Descriptor.File.Canonical.mk _ none [] [_] [] ∅ (by decide) (by rintro _ ⟨⟩)
      (List.forall_mem_nil _) (fun m hm => ?_) (List.forall_mem_nil _) rfl (List.forall_mem_nil _)
    obtain rfl := List.mem_singleton.1 hm
    refine @Descriptor.Message.Canonical.mk _ _ [_] [] [] _ (by decide) (fun f hf => ?_)
      (List.forall_mem_nil _) (List.forall_mem_nil _) rfl
    obtain rfl := List.mem_singleton.1 hf
    exact .mk (by decide) (Wire.Varint.signed_eq_self_iff.2 (by decide))
      (Descriptor.emod_word64_eq_self_iff.2 (by decide)) (by rintro _ ⟨⟩) rfl
  have filed : extreme.FiledByName := by
    intro entry he
    obtain rfl := List.mem_singleton.1 he
    exact ⟨rfl, by decide⟩
  obtain ⟨bytes, written, -, back⟩ := run_encoded exact_ filed
  have size : Addressable bytes := by
    have same : bytes = extreme.encode.toOption.getD [] := by rw [written]; rfl
    rw [same]
    decide +kernel
  obtain ⟨binary, answers⟩ := back size
  have plain : extremeText.Encodable := Text.encodable_ofString _
  exact ⟨read, bytes, written, binary, answers _ (.text plain read) Plugin.outlines {}⟩

section Refiled

/-- A request with one file, which is empty but for its name. -/
def single (key name : Text) : Request where
  protoFiles := .ofList [(key, { name := some name })]

theorem exact_single (key name : Text) (plain : name.Encodable) :
    (single key name).Exact := by
  refine @Request.Exact.mk [] [] _ (by decide) (by decide) fun entry he => ?_
  obtain rfl := List.mem_singleton.1 he
  exact @Descriptor.File.Canonical.mk _ none [] [] [] ∅ plain (by rintro _ ⟨⟩)
    (List.forall_mem_nil _) (List.forall_mem_nil _) (List.forall_mem_nil _) rfl
    (List.forall_mem_nil _)

/-- What encoding changes is not read as it was. -/
theorem decode_ne_of_normalize_ne (exact_ : r.Exact) (written : r.encode = .ok bytes)
    (changed : r.normalize ≠ r) : Request.decode bytes ≠ .ok r := by
  obtain ⟨bytes', written', outcome, -⟩ := exact_.wellTyped.roundTrips
  obtain rfl := Except.ok.inj (written.symm.trans written')
  intro read
  rcases outcome with ⟨e, failed⟩ | ⟨-, read'⟩
  · rw [failed] at read
    cases read
  · exact changed (Except.ok.inj (read'.symm.trans read))

/-- A JSON text whose request is exact, but is not what is read from it encoded. -/
def Refiled (source : Text) : Prop :=
  ∃ r bytes, ofText source = .ok r ∧ r.Exact ∧ r.encode = .ok bytes ∧ Addressable bytes ∧
    Request.decode bytes ≠ .ok r

/-- A file with an empty name is lost on the way, and one under a name that is not its own comes back
under its own. -/
theorem run_encoded_refiled :
    Refiled "\x7b\"protoFiles\": \x7b\"\": \x7b\x7d\x7d\x7d" ∧
      Refiled "\x7b\"protoFiles\": \x7b\"a.proto\": \x7b\"name\": \"b.proto\"\x7d\x7d\x7d" := by
  have keys {r : Request} (other : r.normalize.protoFiles.keys ≠ r.protoFiles.keys) :
      r.normalize ≠ r := fun same => other (congrArg (fun r => r.protoFiles.keys) same)
  refine ⟨?_, ?_⟩
  · have exact_ := exact_single "" "" (by decide)
    have written : (single "" "").encode = .ok [0x7A, 0x02, 0x0A, 0x00] := by decide +kernel
    exact ⟨_, _, by cbv, exact_, written, by decide,
      decode_ne_of_normalize_ne exact_ written (keys (by decide))⟩
  · have exact_ := exact_single "a.proto" "b.proto" (by decide)
    have written : (single "a.proto" "b.proto").encode =
        .ok [0x7A, 0x09, 0x0A, 0x07, 0x62, 0x2E, 0x70, 0x72, 0x6F, 0x74, 0x6F] := by decide +kernel
    exact ⟨_, _, by cbv, exact_, written, by decide,
      decode_ne_of_normalize_ne exact_ written (keys (by decide))⟩

end Refiled

end CommandLine

end SchemaPlugin
