import SchemaPlugin.Text.Printable

/-!
Texts in quotes, on one line and in printable code points. The quotes are single ones, or double
ones where only those leave no quote to escape.
-/

namespace SchemaPlugin.Text

/-- A text that has single quotes and no double ones goes into double quotes. -/
def quoteOf (t : Text) : CodePoint :=
  if CodePoint.ofChar '\'' ∈ t ∧ CodePoint.ofChar '"' ∉ t then '"' else '\''

/-- A code point as it stands between two of `quote`. -/
def escaped (quote c : CodePoint) : Text :=
  if c = quote ∨ c = '\\' then ['\\', c]
  else if c = '\t' then "\\t"
  else if c = '\n' then "\\n"
  else if c = '\r' then "\\r"
  else if c.isPrintable then [c]
  else if c.val < 0x100 then "\\x" ++ hex 2 c.val
  else if c.val < 0x10000 then "\\u" ++ hex 4 c.val
  else "\\U" ++ hex 8 c.val

def quoted (t : Text) : Text :=
  let quote := t.quoteOf
  quote :: t.flatMap (escaped quote) ++ [quote]

end SchemaPlugin.Text
