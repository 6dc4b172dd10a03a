import SchemaPlugin.Proofs.MessageType.Diagnostics
import SchemaPlugin.Proofs.Request.Canonical
import SchemaPlugin.Proofs.Request.RoundTrip

/-!
The limit of nesting. No message of a request that is read is at a level beyond the limit; the tag
of one that would be is refused where it stands, whatever follows it, and nothing else is refused
for its depth.
-/

namespace SchemaPlugin

namespace Descriptor

/-- A message of the file at a level: of the file itself, or nested in a message one level above. -/
inductive File.Holds (f : File) : (level : Nat) → Message → Prop
  | top {messages : List (Option Message)} {m : Message} (listed : f.messages = some messages)
      (mem : some m ∈ messages) : Holds f 1 m
  | nested {level : Nat} {outer m : Message} {messages : List (Option Message)}
      (holds : Holds f level outer) (listed : outer.nestedMessages = some messages)
      (mem : some m ∈ messages) : Holds f (level + 1) m

namespace Message

theorem levels_le_levelsOf {m : Message} {messages : List (Option Message)}
    (mem : some m ∈ messages) : m.levels ≤ levelsOf messages := by
  induction messages with
  | nil => cases mem
  | cons first rest ih =>
    cases mem with
    | head => exact Nat.le_max_left _ _
    | tail _ mem =>
      cases first with
      | none => exact ih mem
      | some _ => exact Nat.le_trans (ih mem) (Nat.le_max_right _ _)

theorem levels_lt_of_nested {outer m : Message} {messages : List (Option Message)}
    (listed : outer.nestedMessages = some messages) (mem : some m ∈ messages) :
    m.levels < outer.levels := by
  obtain ⟨name, fields, nestedMessages, enums, options⟩ := outer
  cases listed
  rw [levels]
  exact Nat.lt_succ_of_le (levels_le_levelsOf mem)

end Message

/-- The level of a message and the levels below it are no more than the limit allows. -/
theorem File.Holds.add_levels_le {f : File} {level : Nat} {m : Message} (holds : f.Holds level m)
    (fits : f.Fits) : level + m.levels ≤ maxNesting + 1 := by
  induction holds with
  | top listed mem =>
    have := (fits.1 _ listed _ mem).2
    omega
  | nested _ listed mem ih =>
    have := Message.levels_lt_of_nested listed mem
    omega

end Descriptor

namespace MessageType

open Descriptor (maxNesting)
open Wire (DecodeError Fault Reader Tag)

/-- The messages of these types can have messages in them. -/
def Nests : MessageType → Prop
  | request | file | message _ => True
  | _ => False

/-- A message at the last level is read up to the tag of a message in it, which ends at the
offset. -/
def Overnests (payload : Bytes) (offset : Nat) : Prop :=
  ∃ front tag back, payload = front ++ (tag ++ back) ∧ (∃ m, (message 0).decode front = .ok m) ∧
    Tag.Spelled ⟨3, .lengthDelimited⟩ tag ∧ offset = front.length + tag.length

variable {type part : MessageType} {data payload : Bytes} {n number offset : Nat}

/-- What has messages in it is a file of a request, or a message. -/
theorem Nests.place_cases (nests : part.Nests) (known : type.part? number = some part) :
    (type = request ∧ number = 15 ∧ part = file) ∨
      (type = file ∧ number = 4 ∧ part = message (maxNesting - 1)) ∨
        ∃ levels, type = message levels ∧ number = 3 ∧ part = message (levels - 1) := by
  unfold part? at known
  split at known <;> cases known <;> cases nests
  · exact .inl ⟨rfl, rfl, rfl⟩
  · exact .inr (.inl ⟨rfl, rfl, rfl⟩)
  · exact .inr (.inr ⟨_, rfl, rfl, rfl⟩)

/-- A message is refused for its depth in itself, at the last level, or in a part. -/
theorem tooDeep_cases (failed : type.decode data = .error ⟨.nestingTooDeep n, offset⟩) :
    (type = message 0 ∧ Overnests data offset) ∨
      ∃ number part payload, type.Meets data number payload ∧
        type.guard ⟨number, .lengthDelimited⟩ 0 = .ok () ∧ type.part? number = some part ∧
          part.decode payload = .error ⟨.nestingTooDeep n, offset⟩ := by
  rcases decode_error_cases failed with ⟨front, mid, passes, taken, flawed⟩ | inPart
  · left
    cases flawed with
    | tag failed => exact (Reader.found_tag failed).ofBytes.elim
    | value _ failed => exact (Reader.found_value failed).ofBytes.elim
    | content _ wrong here =>
      cases here
      cases wrong
    | guard read refused =>
      obtain ⟨rfl, rfl, eq⟩ := eq_of_guard_eq_error refused
      obtain ⟨tag, spelled, passes'⟩ := Reader.tag_eq_ok_iff.1 read
      have together := passes.trans passes'
      refine ⟨rfl, front, tag, _, together.1.trans (List.append_assoc _ _ _), taken, spelled, ?_⟩
      rw [← List.length_append, ← Nat.zero_add (front ++ tag).length]
      exact (congrArg DecodeError.offset eq).trans together.2
  · exact .inr inPart

theorem nests_of_tooDeep (failed : type.decode data = .error ⟨.nestingTooDeep n, offset⟩) :
    type.Nests := by
  induction length : data.length using Nat.strongRecOn generalizing type data with
  | _ size ih =>
    rcases tooDeep_cases failed with ⟨rfl, -⟩ | ⟨number, part, payload, meets, -, known, inside⟩
    · trivial
    · have nests := ih payload.length (length ▸ meets.length_lt) inside rfl
      rcases nests.place_cases known with ⟨rfl, -⟩ | ⟨rfl, -⟩ | ⟨levels, rfl, -⟩ <;> trivial

/-- A request is refused for the depth of a file. -/
theorem tooDeep_request (failed : request.decode data = .error ⟨.nestingTooDeep n, offset⟩) :
    ∃ payload, request.Meets data 15 payload ∧
      file.decode payload = .error ⟨.nestingTooDeep n, offset⟩ := by
  rcases tooDeep_cases failed with ⟨⟨⟩, -⟩ | ⟨number, part, payload, meets, -, known, inside⟩
  rcases (nests_of_tooDeep inside).place_cases known with ⟨-, rfl, rfl⟩ | ⟨⟨⟩, -⟩ | ⟨levels, ⟨⟩, -⟩
  exact ⟨payload, meets, inside⟩

/-- A file is refused for the depth of a message. -/
theorem tooDeep_file (failed : file.decode data = .error ⟨.nestingTooDeep n, offset⟩) :
    ∃ payload, file.Meets data 4 payload ∧
      (message (maxNesting - 1)).decode payload = .error ⟨.nestingTooDeep n, offset⟩ := by
  rcases tooDeep_cases failed with ⟨⟨⟩, -⟩ | ⟨number, part, payload, meets, -, known, inside⟩
  rcases (nests_of_tooDeep inside).place_cases known with ⟨⟨⟩, -⟩ | ⟨-, rfl, rfl⟩ | ⟨levels, ⟨⟩, -⟩
  exact ⟨payload, meets, inside⟩

/-- A message is refused at the last level, and above it for the depth of a message in it. -/
theorem tooDeep_message {levels : Nat}
    (failed : (message levels).decode data = .error ⟨.nestingTooDeep n, offset⟩) :
    (levels = 0 ∧ Overnests data offset) ∨
      0 < levels ∧ ∃ payload, (message levels).Meets data 3 payload ∧
        (message (levels - 1)).decode payload = .error ⟨.nestingTooDeep n, offset⟩ := by
  rcases tooDeep_cases failed with
    ⟨same, overnests⟩ | ⟨number, part, payload, meets, passed, known, inside⟩
  · cases same
    exact .inl ⟨rfl, overnests⟩
  · rcases (nests_of_tooDeep inside).place_cases known with ⟨⟨⟩, -⟩ | ⟨⟨⟩, -⟩ | ⟨_, ⟨⟩, rfl, rfl⟩
    refine .inr ⟨Nat.pos_of_ne_zero fun last => ?_, payload, meets, inside⟩
    cases last
    cases passed

theorem Overnests.decode_eq_error (overnests : Overnests payload offset) :
    (message 0).decode payload = .error ⟨.nestingTooDeep maxNesting, offset⟩ := by
  obtain ⟨front, tag, back, rfl, ⟨m, taken⟩, spelled, rfl⟩ := overnests
  rw [decode_eq_fold] at taken ⊢
  have passes : (Reader.ofBytes (front ++ (tag ++ back))).Passes front
      ⟨front.length, tag ++ back⟩ := ⟨rfl, (Nat.zero_add _).symm⟩
  have read : Reader.tag ⟨front.length, tag ++ back⟩ =
      .ok (⟨3, .lengthDelimited⟩, ⟨front.length + tag.length, back⟩) :=
    Reader.tag_eq_ok_iff.2 ⟨tag, spelled, rfl, rfl⟩
  exact (message 0).steady.fold_eq_error_iff.2 ⟨front, _, m, passes, taken, .guard read rfl⟩

end MessageType

namespace Request

open Descriptor (maxNesting)
open MessageType (Meets Overnests)
open Wire (DecodeError Fault)

/-- The message at a level that the request is read up to: in a file, or in the message one level
above. What stands before it, in all that it is in, is read. -/
inductive ReadUpTo (data : Bytes) : (level : Nat) → Bytes → Prop
  | top {file payload : Bytes} (inRequest : Meets .request data 15 file)
      (inFile : Meets .file file 4 payload) : ReadUpTo data 1 payload
  | nested {level : Nat} {outer payload : Bytes} (below : level < maxNesting)
      (above : ReadUpTo data level outer)
      (inMessage : Meets (.message (maxNesting - level)) outer 3 payload) :
      ReadUpTo data (level + 1) payload

variable {data payload : Bytes} {level n offset : Nat} {e : DecodeError}

theorem guard_of_lt (below : level < maxNesting) :
    (MessageType.message (maxNesting - level)).guard ⟨3, .lengthDelimited⟩ 0 = .ok () :=
  if_neg fun refused => absurd refused.1 (Nat.sub_ne_zero_of_lt below)

/-- The error of the message that the request is read up to is that of the request. -/
theorem ReadUpTo.decode_eq_error (upTo : ReadUpTo data level payload)
    (failed : (MessageType.message (maxNesting - level)).decode payload = .error e) :
    decode data = .error e := by
  induction upTo with
  | top inRequest inFile =>
    exact inRequest.decode_eq_error rfl rfl (inFile.decode_eq_error rfl rfl failed)
  | nested below _ inMessage ih =>
    exact ih (inMessage.decode_eq_error (guard_of_lt below) rfl failed)

/-- From a message that is refused for its depth the way leads on to the last level. -/
theorem ReadUpTo.exists_overnests (upTo : ReadUpTo data level payload) (within : level ≤ maxNesting)
    (failed : (MessageType.message (maxNesting - level)).decode payload =
      .error ⟨.nestingTooDeep n, offset⟩) :
    ∃ last, ReadUpTo data maxNesting last ∧ Overnests last offset := by
  induction left : maxNesting - level generalizing level payload with
  | zero =>
    obtain rfl : level = maxNesting := by omega
    rcases MessageType.tooDeep_message failed with ⟨-, overnests⟩ | ⟨above, -⟩
    · exact ⟨payload, upTo, overnests⟩
    · omega
  | succ left' ih =>
    rcases MessageType.tooDeep_message failed with ⟨last, -⟩ | ⟨-, inner, meets, inside⟩
    · omega
    · exact ih (.nested (by omega) upTo meets) (by omega) inside (by omega)

/-- A request is refused for its depth just if it is read up to the tag of a message in a message
at the last level. -/
theorem decode_tooDeep_iff : decode data = .error ⟨.nestingTooDeep maxNesting, offset⟩ ↔
    ∃ last, ReadUpTo data maxNesting last ∧ Overnests last offset := by
  constructor
  · intro failed
    obtain ⟨file, inRequest, failed⟩ := MessageType.tooDeep_request failed
    obtain ⟨payload, inFile, failed⟩ := MessageType.tooDeep_file failed
    exact (ReadUpTo.top inRequest inFile).exists_overnests (by decide) failed
  · rintro ⟨last, upTo, overnests⟩
    exact upTo.decode_eq_error overnests.decode_eq_error

/-- Messages one inside the other, so many around the bytes. -/
def nest : Nat → Bytes → Bytes
  | 0, bytes => bytes
  | depth + 1, bytes => Encode.partField 3 (nest depth bytes)

/-- A request with a file with a message with these bytes. -/
def around (message : Bytes) : Bytes := Encode.partField 15 (Encode.partField 4 message)

theorem meets_partField {type : MessageType} {number : Nat}
    (valid : Wire.Fields.ValidNumber number) {payload : Bytes} (size : Addressable payload) :
    type.Meets (Encode.partField number payload) number payload :=
  ⟨[], _, [], (List.append_nil _).symm, ⟨_, type.decode_nil⟩,
    Wire.Fields.wholeField_partField valid size⟩

theorem addressable_of_partField {number : Nat} {payload : Bytes}
    (size : Addressable (Encode.partField number payload)) : Addressable payload :=
  Addressable.right (Addressable.right size)

theorem addressable_nest {depth : Nat} {bytes : Bytes} (k : Nat)
    (size : Addressable (nest (depth + k) bytes)) : Addressable (nest depth bytes) := by
  induction k with
  | zero => exact size
  | succ k ih => exact ih (addressable_of_partField size)

/-- However messages are nested, the request is read up to each of them that is not too deep. -/
theorem readUpTo_nest {depth : Nat} {bytes : Bytes} (size : Addressable (around (nest depth bytes)))
    (within : level < maxNesting) (inside : level ≤ depth) :
    ReadUpTo (around (nest depth bytes)) (level + 1) (nest (depth - level) bytes) := by
  have sizeFile := addressable_of_partField size
  have sizeMessage := addressable_of_partField sizeFile
  induction level with
  | zero =>
    exact .top (meets_partField (by decide) sizeFile) (meets_partField (by decide) sizeMessage)
  | succ level ih =>
    have above : depth - level = depth - (level + 1) + 1 := by omega
    have sizeInner : Addressable (nest (depth - (level + 1)) bytes) := by
      refine addressable_nest (level + 1) ?_
      rwa [Nat.sub_add_cancel inside]
    have upTo := ih (by omega) (by omega)
    rw [above] at upTo
    exact .nested within upTo (meets_partField (by decide) sizeInner)

/-- Whatever stands behind the tag of a message at the level after the last. -/
theorem decode_nest_tooDeep (rest : Bytes)
    (size : Addressable (around (nest 63 (Wire.Tag.encode ⟨3, .lengthDelimited⟩ ++ rest)))) :
    decode (around (nest 63 (Wire.Tag.encode ⟨3, .lengthDelimited⟩ ++ rest))) =
      .error ⟨.nestingTooDeep maxNesting, 1⟩ := by
  have below : 63 < maxNesting := by decide
  have valid : Wire.Fields.ValidNumber 3 := by decide
  refine decode_tooDeep_iff.2 ⟨_, readUpTo_nest size below (Nat.le_refl _), ?_⟩
  have length : 1 = 0 + (Wire.Tag.encode ⟨3, .lengthDelimited⟩).length := by
    rw [Wire.Tag.encode, Wire.Varint.ofNat_small (by decide)]
    rfl
  exact ⟨[], _, rest, rfl, ⟨_, MessageType.decode_nil _⟩, Wire.Fields.spelled_tag valid, length⟩

theorem text_nestingTooDeep :
    Fault.text (.nestingTooDeep 64) = Text.ofString "Message nesting exceeds 64 levels" := by
  have digits : Text.ofNat 64 = Text.ofString "64" := by
    rw [Text.ofNat, if_neg (by decide), Text.ofNat, if_pos (by decide)]
    rfl
  rw [Fault.text, digits]
  rfl

/-- The limit of nesting, for the bytes `data`: it is kept by every request that is read, it is what
refuses a message nested at the last level, and every tree within it is read. -/
structure NestingLimited (data : Bytes) : Prop where
  kept : ∀ r, decode data = .ok r → ∀ f ∈ r.protoFiles.values, ∀ level m, f.Holds level m →
    level ≤ 64
  refused : ∀ offset, decode data = .error ⟨.nestingTooDeep 64, offset⟩ ↔
    ∃ last, ReadUpTo data 64 last ∧ Overnests last offset
  told : ∀ offset, Text.ofString "Message nesting exceeds 64 levels" <+:
    DecodeError.message ⟨.nestingTooDeep 64, offset⟩
  read : ∀ r : Request, r.WellTyped → r.Fits → r.encode = .ok data → Addressable data →
    decode data = .ok r.normalize

theorem nestingLimited (data : Bytes) : NestingLimited data where
  kept r read f mem level m holds := by
    have within := holds.add_levels_le ((canonical_of_decode read).fits f mem)
    have := m.levels_pos
    change _ ≤ 64 + 1 at within
    omega
  refused offset := decode_tooDeep_iff
  told offset := by
    rw [DecodeError.message_of_expected?_eq_none rfl, text_nestingTooDeep]
    exact List.prefix_append _ _
  read r typed fits written size := by
    obtain ⟨bytes, written', -, complete⟩ := typed.roundTrips
    cases written.symm.trans written'
    exact complete fits size

end Request

end SchemaPlugin
