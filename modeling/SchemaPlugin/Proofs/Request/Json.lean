import Mathlib
import SchemaPlugin.Proofs.Descriptor.DocumentTexts
import SchemaPlugin.Proofs.Request.Document

/-!
The JSON of a request that was read. Read again, it gives the request back, except that the two
surrogates of a pair have become the code point that they stand for; and there is a pair only where
the source had surrogates that were not escaped.
-/

namespace SchemaPlugin.Request

/-- A request that was read: from a JSON text, from one in bytes, or from the binary form. -/
inductive Received (r : Request) : Prop
  | text {t : Text} (read : ofText t = .ok r)
  | bytes {source : Bytes} (read : ofBytes source = .ok r)
  | binary {source : Bytes} (read : decode source = .ok r)

/-- A request that was read from a source without surrogates, escapes of them apart. -/
inductive PlainlyReceived (r : Request) : Prop
  | text {t : Text} (plain : t.Encodable) (read : ofText t = .ok r)
  | bytes {source : Bytes} {t : Text} (decoded : Document.decodeSource source = .ok t)
      (plain : t.Encodable) (read : ofBytes source = .ok r)
  | binary {source : Bytes} (read : decode source = .ok r)

variable {r : Request}

theorem Received.settled (received : r.Received) :
    ∀ entry ∈ r.protoFiles.entries, Settled entry := by
  cases received with
  | text read =>
    obtain ⟨d, -, shaped⟩ := bind_eq_ok_iff.1 read
    exact settled_of_ofDocument (mapError_eq_ok_iff.1 shaped)
  | bytes read =>
    obtain ⟨d, -, shaped⟩ := bind_eq_ok_iff.1 read
    exact settled_of_ofDocument (mapError_eq_ok_iff.1 shaped)
  | binary read => exact settled_of_canonical (canonical_of_decode read)

theorem PlainlyReceived.unpaired (received : r.PlainlyReceived) :
    ∀ t ∈ r.texts, t.Unpaired := by
  cases received with
  | text plain read =>
    obtain ⟨d, parsed, shaped⟩ := bind_eq_ok_iff.1 read
    have unpaired := Document.unpaired_of_parse plain (mapError_eq_ok_iff.1 parsed)
    exact unpaired_of_ofDocument unpaired (mapError_eq_ok_iff.1 shaped)
  | bytes decoded plain read =>
    obtain ⟨d, parsed, shaped⟩ := bind_eq_ok_iff.1 read
    obtain ⟨t, decoded', parsed⟩ := bind_eq_ok_iff.1 (mapError_eq_ok_iff.1 parsed)
    obtain rfl := Except.ok.inj (decoded.symm.trans (mapError_eq_ok_iff.1 decoded'))
    have unpaired := Document.unpaired_of_ofDecoded plain (mapError_eq_ok_iff.1 parsed)
    exact unpaired_of_ofDocument unpaired (mapError_eq_ok_iff.1 shaped)
  | binary read => exact fun t ht => ((canonical_of_decode read).encodable_texts t ht).unpaired

/-- A request that was read is read from its JSON as it is, but for pairs of surrogates, which are
joined. It has no pair if its source had no surrogates other than escaped ones. -/
theorem ofText_toJson (received : r.Received) (indent : Option Int) :
    ofText (r.toJson indent) = .ok r.joined ∧
      ((∀ t ∈ r.texts, t.Unpaired) → r.joined = r) ∧
      (r.PlainlyReceived → ∀ t ∈ r.texts, t.Unpaired) := by
  refine ⟨?_, joined_eq_self, fun plainly => plainly.unpaired⟩
  have settled := received.settled
  exact ofText_toJson_of_settled settled indent

/-- A request with null parts, a truth value for a number, and half a pair of surrogates. -/
def halves : Request where
  filesToGenerate := none
  parameter := some [.ofNat 0xD800]
  protoFiles := .ofList [("a.proto", {
    name := some "a.proto"
    messages := some [none]
    enums := some [some { values := some [some { number := some (.flag true) }] }] })]

theorem ofText_toJson_halves :
    halves.Received ∧ halves.joined = halves ∧
      ofText (halves.toJson (some (-1))) = .ok halves := by
  have read : ofText ("\x7b\"filesToGenerate\": null, \"parameter\": \"\\ud800\", " ++
      "\"protoFiles\": \x7b\"a.proto\": \x7b\"messages\": [null], " ++
      "\"enums\": [\x7b\"values\": [\x7b\"number\": true\x7d]\x7d]\x7d\x7d\x7d" : String) =
        .ok halves := by cbv
  have received : halves.Received := .text read
  obtain ⟨back, same, plain⟩ := ofText_toJson received (some (-1))
  have joined := same (plain (.text (Text.encodable_ofString _) read))
  exact ⟨received, joined, back.trans (congrArg Except.ok joined)⟩

/-- In bytes, the halves of a pair may come one by one; their escapes come back as one code point. -/
theorem ofText_toJson_joins :
    ¬∀ r : Request, r.Received → ∀ indent, ofText (r.toJson indent) = .ok r := by
  intro back
  have read : ofBytes [0x7B, 0x22, 0x70, 0x61, 0x72, 0x61, 0x6D, 0x65, 0x74, 0x65, 0x72, 0x22, 0x3A,
      0x22, 0xED, 0xA0, 0xBD, 0xED, 0xB8, 0x80, 0x22, 0x7D] =
        .ok { parameter := some [.ofNat 0xD83D, .ofNat 0xDE00] } := by cbv
  have joined := ofText_toJson_of_settled (Received.bytes read).settled none
  have same := Except.ok.inj (joined.symm.trans (back _ (.bytes read) none))
  have parameter := congrArg Request.parameter same
  revert parameter
  decide

end SchemaPlugin.Request
