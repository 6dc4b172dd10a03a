import SchemaPlugin.Console.Wrap
import SchemaPlugin.Text.Markup

/-!
What a console prints of marked-up texts: plain lines, broken at its width or, for diagnostics, not
broken at all.
-/

namespace SchemaPlugin.Console

open Markup (MarkupError)

/-- The width of the console. -/
def width : Nat := 80

/-- Lines, each ended. -/
def printed (lines : List Text) : Text := lines.flatMap fun line => line ++ "\n"

def print (markup : Text) : Except MarkupError Text := do
  return printed (wrap width (← Markup.plain markup))

def printUnbroken (markup : Text) : Except MarkupError Text := do
  return printed ((Text.split '\n' (← Markup.plain markup)).map expandTabs)

end SchemaPlugin.Console
