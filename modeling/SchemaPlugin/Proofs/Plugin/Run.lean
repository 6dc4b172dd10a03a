import SchemaPlugin.Plugin
import SchemaPlugin.Proofs.Document.Printer
import SchemaPlugin.Proofs.Response.RoundTrip

/-!
What a run puts out. Either a response is made and can be encoded, or there is a failure, of one
stage or another; then the response that describes the failure goes out, which can be encoded
whatever the failure says.
-/

namespace SchemaPlugin.Plugin

open Text

theorem encodable_escapeSurrogates (t : Text) : (escapeSurrogates t).Encodable := by
  refine encodable_flatMap fun c _ => ?_
  split_ifs with surrogate
  · simp
  · simpa using surrogate

theorem Failure.encodable_description (f : Failure) : f.description.Encodable := by
  simp [Failure.description, encodable_escapeSurrogates]

/-- A response as it goes out: of one with an error, only the error does. -/
def sent (r : Response) : Response := if r.hasError then .failure (r.error.getD []) else r

section Run

variable {generate : Generator} {settings : Settings} {input output : Bytes} {r : Response}
  {f : Failure}

section

variable (generate settings input)

/-- The generator makes a response of the request. -/
def Makes (r : Response) : Prop :=
  ∃ request, decodeInput settings input = .ok request ∧ generate request = .ok (.response r)

/-- How a run can fail: the request cannot be decoded, the generator raises an error or makes
something that is no response, or the response that it makes cannot be encoded. -/
inductive Fails : Failure → Prop
  | decode {f : Failure} (undecoded : decodeInput settings input = .error f) : Fails f
  | generate {request : Request} {f : Failure} (decoded : decodeInput settings input = .ok request)
      (raised : generate request = .error f) : Fails f
  | check {request : Request} {d : Document} (decoded : decodeInput settings input = .ok request)
      (made : generate request = .ok (.other d)) : Fails (.notResponse d.kind)
  | encode {r : Response} {f : Failure} (made : Makes generate settings input r)
      (unencoded : encodeOutput settings (sent r) = .error f) : Fails f

end

theorem makes_or_fails :
    (∃ r output, Makes generate settings input r ∧ encodeOutput settings (sent r) = .ok output) ∨
      ∃ f, Fails generate settings input f := by
  cases decoded : decodeInput settings input with
  | error f => exact .inr ⟨f, .decode decoded⟩
  | ok request =>
    cases made : generate request with
    | error f => exact .inr ⟨f, .generate decoded made⟩
    | ok product =>
      cases product with
      | other d => exact .inr ⟨_, .check decoded made⟩
      | response r =>
        cases encoded : encodeOutput settings (sent r) with
        | error f => exact .inr ⟨f, .encode ⟨request, decoded, made⟩ encoded⟩
        | ok output => exact .inl ⟨r, output, ⟨request, decoded, made⟩, encoded⟩

theorem encodeOutput_of_wellTyped (settings : Settings) (typed : r.WellTyped) :
    ∃ output, encodeOutput settings r = .ok output := by
  cases json : settings.jsonOutput with
  | true => exact ⟨_, by rw [encodeOutput, if_pos json]⟩
  | false =>
    obtain ⟨bytes, encoded⟩ := Response.wellTyped_iff_encode.1 typed
    exact ⟨bytes, by rw [encodeOutput, json, if_neg (by simp), encoded]; rfl⟩

theorem encodeOutput_failure (settings : Settings) {message : Text} (h : message.Encodable) :
    ∃ output, encodeOutput settings (.failure message) = .ok output :=
  encodeOutput_of_wellTyped settings (Response.wellTyped_failure h)

theorem respond_of_makes (quiet : settings.debug = false) (made : Makes generate settings input r) :
    respond generate settings input = ⟨sent r, false, []⟩ := by
  obtain ⟨request, decoded, made⟩ := made
  simp [respond, decoded, announced, quiet, produce, made, sent]

theorem run_of_makes (quiet : settings.debug = false) (made : Makes generate settings input r)
    (encoded : encodeOutput settings (sent r) = .ok output) :
    run generate settings input = ⟨0, output, []⟩ := by
  simp [run, respond_of_makes quiet made, encoded, completion, quiet]

theorem run_of_fails (quiet : settings.debug = false) (failed : Fails generate settings input f)
    (encoded : encodeOutput settings (.failure f.description) = .ok output) :
    run generate settings input = ⟨1, output, []⟩ := by
  cases failed with
  | decode undecoded =>
    simp [run, respond, undecoded, fail, encoded, completion, quiet]
  | generate decoded raised =>
    simp [run, respond, decoded, announced, quiet, produce, raised, fail, encoded, completion]
  | check decoded made =>
    simp [run, respond, decoded, announced, quiet, produce, made, fail, encoded, completion]
  | encode made unencoded =>
    simp [run, respond_of_makes quiet made, unencoded, fail, quiet, encoded, Except.toOption]

/-- A run either makes a response and puts it out, or fails and puts that out. -/
theorem run_cases (quiet : settings.debug = false) :
    (∃ r output, Makes generate settings input r ∧
      encodeOutput settings (sent r) = .ok output ∧
      run generate settings input = ⟨0, output, []⟩) ∨
    ∃ f output, Fails generate settings input f ∧
      encodeOutput settings (.failure f.description) = .ok output ∧
      run generate settings input = ⟨1, output, []⟩ := by
  rcases makes_or_fails with ⟨r, output, made, encoded⟩ | ⟨f, failed⟩
  · exact .inl ⟨r, output, made, encoded, run_of_makes quiet made encoded⟩
  · obtain ⟨output, encoded⟩ := encodeOutput_failure settings f.encodable_description
    exact .inr ⟨f, output, failed, encoded, run_of_fails quiet failed encoded⟩

end Run

end SchemaPlugin.Plugin
