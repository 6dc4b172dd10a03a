import SchemaPlugin.Descriptor.ToDocument
import SchemaPlugin.Document.Printer
import SchemaPlugin.Response

/-!
Responses as documents.
-/

namespace SchemaPlugin

def GeneratedFile.toDocument (g : GeneratedFile) : Document :=
  .object [("name", Document.ofText? g.name), ("content", Document.ofText? g.content)]

namespace Response

def toDocument (r : Response) : Document :=
  .object [
    ("error", Document.ofText? r.error),
    ("files", .array (r.files.map GeneratedFile.toDocument))]

def toJson (indent : Option Int) (r : Response) : Text := r.toDocument.print indent

end Response

end SchemaPlugin
