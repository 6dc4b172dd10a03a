import SchemaPlugin.Proofs.Wire.ReadBack
import SchemaPlugin.Response

/-!
Responses that are written and read. A response can be written just when its texts have no
surrogates, and is read back as it was, but that an empty error is none; any response that is read
can be written.
-/

namespace SchemaPlugin

open Wire.Fields

namespace Encode

theorem encodable_of_textField {number : Nat} {t : Text} {bytes : Bytes}
    (h : textField number t = .ok bytes) : t.Encodable := by
  unfold textField at h
  split at h
  · rename_i payload encoded
    exact (Utf8.encode_eq_ok_iff.1 encoded).1
  · cases h

theorem encodable_of_textField? {number : Nat} {text? : Option Text} {bytes : Bytes}
    (h : textField? number text? = .ok bytes) : ∃ t, text? = some t ∧ t.Encodable := by
  cases text? with
  | none => cases h
  | some t => exact ⟨t, rfl, encodable_of_textField h⟩

theorem encode_of_partFields {α : Type} {number : Nat} {encode : α → Encode Bytes} {as : List α}
    {bytes : Bytes} (h : partFields number encode (as.map some) = .ok bytes) :
    ∀ a ∈ as, ∃ payload, encode a = .ok payload := by
  induction as generalizing bytes with
  | nil => nofun
  | cons a as ih =>
    obtain ⟨payload, head, h⟩ := bind_eq_ok_iff.1 h
    obtain ⟨rest, tail, -⟩ := bind_eq_ok_iff.1 h
    exact List.forall_mem_cons.2 ⟨⟨payload, head⟩, ih tail⟩

end Encode

namespace GeneratedFile

inductive WellTyped : GeneratedFile → Prop
  | mk {name content : Text} (nameEncodable : name.Encodable)
      (contentEncodable : content.Encodable) : WellTyped ⟨some name, some content⟩

theorem wellTyped_of_encode {g : GeneratedFile} {bytes : Bytes} (h : g.encode = .ok bytes) :
    g.WellTyped := by
  obtain ⟨name?, content?⟩ := g
  obtain ⟨front, hname, h⟩ := bind_eq_ok_iff.1 h
  obtain ⟨back, hcontent, -⟩ := bind_eq_ok_iff.1 h
  obtain ⟨name, rfl, nameEncodable⟩ := Encode.encodable_of_textField? hname
  obtain ⟨content, rfl, contentEncodable⟩ := Encode.encodable_of_textField? hcontent
  exact .mk nameEncodable contentEncodable

theorem WellTyped.roundTrips {g : GeneratedFile} (typed : g.WellTyped) :
    RoundTrips g.encode decode True g := by
  cases typed with
  | @mk name content nameEncodable contentEncodable =>
    have hname : Writes noGuard step {} (Encode.textField 1 name) _
        ({ name := some name } : GeneratedFile) :=
      writes_textField (fun name => ({ name := some name } : GeneratedFile)) (by decide)
        nameEncodable (fun _ => rfl) fun _ _ => rfl
    have hcontent : Writes noGuard step ({ name := some name } : GeneratedFile)
        (Encode.textField 15 content) _ ⟨some name, some content⟩ :=
      writes_textField (fun content => (⟨some name, some content⟩ : GeneratedFile)) (by decide)
        contentEncodable (fun _ => rfl) fun _ _ => rfl
    obtain ⟨front, hf, hname⟩ := hname
    obtain ⟨back, hb, hcontent⟩ := hcontent
    refine ⟨front ++ back, ?_, ((hname.append hcontent).congr (by simp)).decodes⟩
    simp [encode, Encode.textField?, hf, hb]

theorem WellTyped.step {g g' : GeneratedFile} {f : Wire.Field} (typed : g.WellTyped)
    (stepped : g.step f = .ok g') : g'.WellTyped := by
  cases typed with
  | mk nameEncodable contentEncodable =>
    unfold GeneratedFile.step at stepped
    split at stepped
    · obtain ⟨name, read, eq⟩ := bind_eq_ok_iff.1 stepped
      cases eq
      exact .mk (Wire.encodable_of_decodeText read) contentEncodable
    · obtain ⟨content, read, eq⟩ := bind_eq_ok_iff.1 stepped
      cases eq
      exact .mk nameEncodable (Wire.encodable_of_decodeText read)
    · cases stepped
      exact .mk nameEncodable contentEncodable

theorem wellTyped_of_decode {g : GeneratedFile} {bytes : Bytes} (h : decode bytes = .ok g) :
    g.WellTyped :=
  (run_of_fold h).invariant_of_step WellTyped (fun _ _ _ typed => typed.step)
    (.mk nofun nofun)

end GeneratedFile

namespace Response

inductive WellTyped : Response → Prop
  | mk {error : Option Text} {files : List GeneratedFile}
      (errorEncodable : ∀ t, error = some t → t.Encodable)
      (filesTyped : ∀ g ∈ files, g.WellTyped) : WellTyped ⟨error, files⟩

theorem wellTyped_failure {message : Text} (h : message.Encodable) :
    (failure message).WellTyped :=
  .mk (by rintro _ ⟨⟩; exact h) nofun

/-- The response with an empty error taken for none. -/
def received (r : Response) : Response := if r.hasError then r else { r with error := none }

theorem wellTyped_of_encode {r : Response} {bytes : Bytes} (h : r.encode = .ok bytes) :
    r.WellTyped := by
  obtain ⟨error, files⟩ := r
  have typed {bytes : Bytes}
      (h : Encode.partFields 15 GeneratedFile.encode (files.map some) = .ok bytes) :
      ∀ g ∈ files, g.WellTyped := by
    intro g hg
    obtain ⟨payload, hg⟩ := Encode.encode_of_partFields h g hg
    exact GeneratedFile.wellTyped_of_encode hg
  match error with
  | none =>
    obtain ⟨_, -, h⟩ := bind_eq_ok_iff.1 h
    obtain ⟨_, hfiles, -⟩ := bind_eq_ok_iff.1 h
    exact .mk nofun (typed hfiles)
  | some [] =>
    obtain ⟨_, -, h⟩ := bind_eq_ok_iff.1 h
    obtain ⟨_, hfiles, -⟩ := bind_eq_ok_iff.1 h
    exact .mk (by rintro _ ⟨⟩; nofun) (typed hfiles)
  | some (c :: rest) =>
    obtain ⟨_, herror, h⟩ := bind_eq_ok_iff.1 h
    obtain ⟨_, hfiles, -⟩ := bind_eq_ok_iff.1 h
    exact .mk (by rintro _ ⟨⟩; exact Encode.encodable_of_textField herror) (typed hfiles)

theorem WellTyped.roundTrips {r : Response} (typed : r.WellTyped) :
    RoundTrips r.encode decode True r.received := by
  cases typed with
  | @mk error files errorEncodable filesTyped =>
    have herror : Writes noGuard step ({} : Response) (textUnlessEmpty 1 error) _ _ :=
      writes_textUnlessEmpty (fun error => (⟨error, []⟩ : Response)) (by decide) errorEncodable
        (fun _ => rfl) fun _ _ => rfl
    have hfiles (error : Option Text) : Writes noGuard step (⟨error, []⟩ : Response)
        (Encode.partFields 15 GeneratedFile.encode (files.map some)) _ ⟨error, files.map id⟩ :=
      writes_partFields (fun files => (⟨error, files⟩ : Response)) (by decide) (fun _ => rfl)
        (fun _ _ _ => rfl) (fun g hg => (filesTyped g hg).roundTrips) []
    match error with
    | none | some [] =>
      obtain ⟨front, hf, herror⟩ := herror
      cases hf
      obtain ⟨back, hb, hfiles⟩ := hfiles none
      rw [List.map_id] at hfiles
      refine ⟨[] ++ back, ?_, ((herror.append hfiles).congr (by simp)).decodes⟩
      simp [encode, hb]
    | some (c :: rest) =>
      obtain ⟨front, hf, herror⟩ := herror
      obtain ⟨back, hb, hfiles⟩ := hfiles (some (c :: rest))
      rw [List.map_id] at hfiles
      refine ⟨front ++ back, ?_, ((herror.append hfiles).congr (by simp)).decodes⟩
      rw [textUnlessEmpty] at hf
      simp [encode, hf, hb]

theorem WellTyped.step {r r' : Response} {f : Wire.Field} (typed : r.WellTyped)
    (stepped : r.step f = .ok r') : r'.WellTyped := by
  cases typed with
  | mk errorEncodable filesTyped =>
    unfold Response.step at stepped
    split at stepped
    · obtain ⟨error, read, eq⟩ := bind_eq_ok_iff.1 stepped
      cases eq
      exact .mk (by rintro _ ⟨⟩; exact Wire.encodable_of_decodeText read) filesTyped
    · obtain ⟨g, read, eq⟩ := bind_eq_ok_iff.1 stepped
      cases eq
      exact .mk errorEncodable
        (forall_mem_concat filesTyped (GeneratedFile.wellTyped_of_decode read))
    · cases stepped
      exact .mk errorEncodable filesTyped

theorem wellTyped_of_decode {r : Response} {bytes : Bytes} (h : decode bytes = .ok r) :
    r.WellTyped :=
  (run_of_fold h).invariant_of_step WellTyped (fun _ _ _ typed => typed.step) (.mk nofun nofun)

theorem wellTyped_iff_encode {r : Response} : r.WellTyped ↔ ∃ bytes, r.encode = .ok bytes := by
  constructor
  · intro typed
    obtain ⟨bytes, encoded, -⟩ := typed.roundTrips
    exact ⟨bytes, encoded⟩
  · rintro ⟨bytes, encoded⟩
    exact wellTyped_of_encode encoded

/-- What is written is read as the response, an empty error taken for none. -/
theorem decode_of_encode {r : Response} {bytes : Bytes} (h : r.encode = .ok bytes)
    (size : Addressable bytes) : decode bytes = .ok r.received := by
  obtain ⟨bytes', encoded, decodes⟩ := (wellTyped_of_encode h).roundTrips
  cases h.symm.trans encoded
  exact decodes.complete trivial size

theorem received_eq (r : Response) :
    r.received = { r with error := r.error.filter (· ≠ []) } := by
  match r with
  | ⟨none, _⟩ | ⟨some [], _⟩ | ⟨some (_ :: _), _⟩ => rfl

/-- Responses go out and come back. Every response whose texts have no surrogates is written, and
read from that with its files and its error, of which an empty one is none. Every response that is
read from whatever bytes is written, and read from that with the same files and the same error, up
to an empty one. -/
theorem round_trip :
    (∀ r : Response, r.WellTyped → ∃ bytes, r.encode = .ok bytes ∧
      (Addressable bytes → decode bytes = .ok { r with error := r.error.filter (· ≠ []) })) ∧
    ∀ (bytes : Bytes) (r : Response), decode bytes = .ok r → ∃ written, r.encode = .ok written ∧
      (Addressable written → ∃ r', decode written = .ok r' ∧ r'.files = r.files ∧
        r'.error = r.error.filter (· ≠ [])) := by
  have back {r : Response} (typed : r.WellTyped) : ∃ bytes, r.encode = .ok bytes ∧
      (Addressable bytes → decode bytes = .ok { r with error := r.error.filter (· ≠ []) }) := by
    obtain ⟨bytes, encoded⟩ := wellTyped_iff_encode.1 typed
    exact ⟨bytes, encoded, fun size => r.received_eq ▸ decode_of_encode encoded size⟩
  refine ⟨fun r => back, fun bytes r accepted => ?_⟩
  obtain ⟨written, encoded, decoded⟩ := back (wellTyped_of_decode accepted)
  exact ⟨written, encoded, fun size => ⟨_, decoded size, rfl, rfl⟩⟩

/-- An empty error, and two files of one name, one of them empty and one beyond the first 2^16 code
points. -/
def namesakes : Response where
  error := some []
  files := [⟨some "a.txt", some []⟩, ⟨some "a.txt", some [.ofNat 0x1F600]⟩]

theorem wellTyped_namesakes : namesakes.WellTyped := by
  refine .mk (by rintro _ ⟨⟩; nofun) (List.forall_mem_cons.2 ⟨.mk (by decide) (by decide), ?_⟩)
  exact List.forall_mem_singleton.2 (.mk (by decide) (by decide))

/-- An error, a field that no response has, a file with its content before its name, and an empty
error. -/
def disordered : Bytes :=
  [0x0A, 0x01, 0x61, 0xC8, 0x00, 0x01, 0x7A, 0x06, 0x7A, 0x01, 0x78, 0x0A, 0x01, 0x6E, 0x0A, 0x00]

theorem round_trip_namesakes :
    (∃ bytes, namesakes.encode = .ok bytes ∧
      decode bytes = .ok { namesakes with error := none }) ∧
    ∃ r written, decode disordered = .ok r ∧ r = ⟨some [], [⟨some "n", some "x"⟩]⟩ ∧
      r.encode = .ok written ∧ decode written = .ok { r with error := none } := by
  obtain ⟨bytes, encoded, back⟩ := round_trip.1 namesakes wellTyped_namesakes
  have read : decode disordered = .ok ⟨some [], [⟨some "n", some "x"⟩]⟩ := by cbv
  obtain ⟨written, encoded', back'⟩ := round_trip.2 disordered _ read
  have size : Addressable bytes := by
    have same : bytes = namesakes.encode.toOption.getD [] := by rw [encoded]; rfl
    rw [same]
    decide +kernel
  have size' : Addressable written := by
    have same : written =
        (encode ⟨some [], [⟨some "n", some "x"⟩]⟩).toOption.getD [] := by rw [encoded']; rfl
    rw [same]
    decide +kernel
  obtain ⟨r', again, files, error⟩ := back' size'
  obtain ⟨error', files'⟩ := r'
  cases files
  cases error
  exact ⟨⟨bytes, encoded, back size⟩, _, written, read, rfl, encoded', again⟩

end Response

end SchemaPlugin
