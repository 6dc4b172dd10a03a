import Mathlib
import SchemaPlugin.Proofs.CommandLine.LineEnds
import SchemaPlugin.Proofs.Document.Source

/-!
JSON files. A file is UTF-8, while bytes may come in any encoding that they tell. Where the bytes of
a file are taken for UTF-8 as well, the request of the file is that of the bytes, whatever its line
ends are; any other file is refused.
-/

namespace SchemaPlugin

namespace Request

variable {r : Request} {t : Text} {source : Bytes}

theorem eq_object_of_ofDocument {d : Document} (h : ofDocument d = .ok r) :
    ∃ ms, d = .object ms := by
  cases d with
  | object ms => exact ⟨ms, rfl⟩
  | _ => cases h

/-- A text that a request is read from does not begin with a byte order mark. -/
theorem ofText_eq_ok_iff :
    ofText t = .ok r ↔ ∃ d, Document.ofDecoded t = .ok d ∧ ofDocument d = .ok r := by
  simp only [ofText, bind_eq_ok_iff, mapError_eq_ok_iff]
  refine exists_congr fun d => and_congr_left fun shaped => ?_
  refine ⟨Document.ofDecoded_of_parse, fun read => ?_⟩
  obtain ⟨ms, rfl⟩ := eq_object_of_ofDocument shaped
  obtain ⟨c, more, rfl, first, -⟩ := Document.exists_leading_of_ofDecoded read
  rw [Document.parse, if_neg, read]
  rintro ⟨⟩
  exact absurd first (by decide)

theorem ofText_unifyLineEnds_eq_ok_iff :
    ofText (CommandLine.unifyLineEnds t) = .ok r ↔ ofText t = .ok r := by
  simp only [ofText_eq_ok_iff, Document.ofDecoded_unifyLineEnds_eq_ok_iff]

/-- Bytes that are taken for UTF-8 are read as their text. -/
theorem ofBytes_eq_ok_iff (plain : Document.PlainUtf8 source)
    (decoded : Utf8.decode source = .ok t) : ofBytes source = .ok r ↔ ofText t = .ok r := by
  simp only [ofText_eq_ok_iff, ofBytes, Document.ofBytes, plain.decodeSource_eq decoded,
    bind_eq_ok_iff, mapError_eq_ok_iff, Except.ok.injEq, exists_eq_left']

/-- The bytes of a text that a request is read from are taken for UTF-8. -/
theorem plainUtf8_of_ofText (decoded : Utf8.decode source = .ok t) (read : ofText t = .ok r) :
    Document.PlainUtf8 source := by
  obtain ⟨encodable, rfl⟩ := Utf8.decode_eq_ok_iff.1 decoded
  obtain ⟨d, parsed, shaped⟩ := ofText_eq_ok_iff.1 read
  obtain ⟨ms, rfl⟩ := eq_object_of_ofDocument shaped
  exact Document.plainUtf8_flatMap encodable parsed

theorem ofBytes_of_ofText (decoded : Utf8.decode source = .ok t) (read : ofText t = .ok r) :
    ofBytes source = .ok r :=
  (ofBytes_eq_ok_iff (plainUtf8_of_ofText decoded read) decoded).2 read

end Request

namespace CommandLine

open Document (PlainUtf8)

variable {r : Request} {source : Bytes} {files : Files} {name : Text}

theorem readRequest_json_eq_ok_iff_exists :
    readRequest .json source = .ok r ↔
      ∃ t, Utf8.decode source = .ok t ∧ Request.ofText t = .ok r := by
  simp only [readRequest, bind_eq_ok_iff, mapError_eq_ok_iff, readText]
  cases Utf8.decode source with
  | error e => simp
  | ok t => simp [Request.ofText_unifyLineEnds_eq_ok_iff]

/-- The request of a file is that of its bytes if these are taken for UTF-8. -/
theorem readRequest_json_eq_ok_iff :
    readRequest .json source = .ok r ↔ PlainUtf8 source ∧ Request.ofBytes source = .ok r := by
  rw [readRequest_json_eq_ok_iff_exists]
  constructor
  · rintro ⟨t, decoded, read⟩
    exact ⟨Request.plainUtf8_of_ofText decoded read, Request.ofBytes_of_ofText decoded read⟩
  · rintro ⟨plain, read⟩
    obtain ⟨t, decoded⟩ := Utf8.decode_isOk_iff.2 plain.wellFormed
    exact ⟨t, decoded, (Request.ofBytes_eq_ok_iff plain decoded).1 read⟩

section Found

variable (found : files.read (Path.ofText name) = .ok source)
include found

theorem encodeFile_eq_bind (target : Text) :
    encodeFile name target files = readRequest .json source >>= fun r => do
      let bytes ← r.encode.mapError .encode
      let files ← (files.write (Path.ofText target) bytes).mapError .file
      return (bytes.length, files) := by
  rw [encodeFile, found]
  rfl

end Found

section Sources

/-- Bytes with a byte order mark. -/
def marked : Bytes := [0xEF, 0xBB, 0xBF, 0x7B, 0x7D]

end Sources

end CommandLine

end SchemaPlugin
