import SchemaPlugin.Proofs.Descriptor.Document
import SchemaPlugin.Proofs.Document.ReadBack
import SchemaPlugin.Proofs.Document.Unpaired
import SchemaPlugin.Proofs.Response.RoundTrip
import SchemaPlugin.Response.Document

/-!
Responses printed and read again. A response whose texts have no surrogates is read from its
document as it is received from its bytes.
-/

namespace SchemaPlugin

open Document (Integral ofText? integral_ofText?)

theorem Document.joined_ofText?_eq_self {t : Option Text}
    (encodable : ∀ u, t = some u → u.Encodable) : (ofText? t).joined = ofText? t := by
  cases t with
  | none => rfl
  | some t => rw [ofText?, joined, (encodable t rfl).unpaired.joinSurrogates_eq]

namespace GeneratedFile

/-- Reads a file with a name and a content. -/
def ofDocument? : Document → Option GeneratedFile
  | .object [(nameKey, .string name), (contentKey, .string content)] =>
    if nameKey = "name" ∧ contentKey = "content" then some ⟨some name, some content⟩ else none
  | _ => none

theorem integral_toDocument (g : GeneratedFile) : Integral g.toDocument :=
  .object (by simp [integral_ofText?])

variable {g : GeneratedFile}

theorem WellTyped.joined_toDocument (typed : g.WellTyped) : g.toDocument.joined = g.toDocument := by
  cases typed with
  | @mk name content nameEncodable contentEncodable =>
    have hname := nameEncodable.unpaired.joinSurrogates_eq
    have hcontent := contentEncodable.unpaired.joinSurrogates_eq
    change Document.ofMembers [("name", .string (Encoding.joinSurrogates name)),
      ("content", .string (Encoding.joinSurrogates content))] = _
    rw [hname, hcontent]
    rfl

theorem WellTyped.ofDocument?_toDocument (typed : g.WellTyped) :
    ofDocument? g.toDocument = some g := by
  cases typed
  rfl

end GeneratedFile

namespace Response

/-- What an error says: nothing if it is null or empty. -/
def errorOf? : Document → Option (Option Text)
  | .null | .string [] => some none
  | .string t => some (some t)
  | _ => none

/-- Reads a response with an error and files, an empty error as none. -/
def ofDocument? : Document → Option Response
  | .object [(errorKey, error), (filesKey, .array files)] =>
    if errorKey = "error" ∧ filesKey = "files" then do
      return ⟨← errorOf? error, ← files.mapM GeneratedFile.ofDocument?⟩
    else none
  | _ => none

theorem integral_toDocument (r : Response) : Integral r.toDocument := by
  have files : Integral (.array (r.files.map GeneratedFile.toDocument)) :=
    .array (List.forall_mem_map.2 fun g _ => g.integral_toDocument)
  exact .object (by simp [integral_ofText?, files])

variable {r : Response}

theorem WellTyped.joined_toDocument (typed : r.WellTyped) : r.toDocument.joined = r.toDocument := by
  cases typed with
  | @mk error files errorEncodable filesTyped =>
    have herror := Document.joined_ofText?_eq_self errorEncodable
    have hfiles : Document.joinedItems (files.map GeneratedFile.toDocument) =
        files.map GeneratedFile.toDocument := by
      rw [Document.joinedItems_eq, List.map_map]
      exact List.map_congr_left fun g hg => (filesTyped g hg).joined_toDocument
    change Document.ofMembers [("error", (ofText? error).joined),
      ("files", .array (Document.joinedItems (files.map GeneratedFile.toDocument)))] = _
    rw [herror, hfiles]
    rfl

theorem errorOf?_ofText? (r : Response) : errorOf? (ofText? r.error) = some r.received.error := by
  match r with
  | ⟨none, _⟩ | ⟨some [], _⟩ | ⟨some (_ :: _), _⟩ => rfl

theorem mapM_toDocument {files : List GeneratedFile} (typed : ∀ g ∈ files, g.WellTyped) :
    (files.map GeneratedFile.toDocument).mapM GeneratedFile.ofDocument? = some files := by
  induction files with
  | nil => rfl
  | cons g rest ih =>
    obtain ⟨first, others⟩ := List.forall_mem_cons.1 typed
    rw [List.map_cons, List.mapM_cons, first.ofDocument?_toDocument, ih others]
    rfl

/-- The document of a response says what its bytes say. -/
theorem WellTyped.ofDocument?_toDocument (typed : r.WellTyped) :
    ofDocument? r.toDocument = some r.received := by
  have error := r.errorOf?_ofText?
  have files := r.received_eq
  cases typed with
  | mk _ filesTyped =>
    rw [toDocument, ofDocument?, if_pos ⟨rfl, rfl⟩, error, mapM_toDocument filesTyped, files]
    rfl

end Response

end SchemaPlugin
