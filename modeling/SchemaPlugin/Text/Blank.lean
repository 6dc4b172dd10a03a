import SchemaPlugin.Text

/-!
Which code points are blank: the white space and the information separators of Unicode.
-/

namespace SchemaPlugin.CodePoint

/-- The ranges of blank code points, in ascending order. -/
def blankRanges : List (Nat × Nat) := [
    (0x9, 0xD), (0x1C, 0x20), (0x85, 0x85), (0xA0, 0xA0), (0x1680, 0x1680), (0x2000, 0x200A),
    (0x2028, 0x2029), (0x202F, 0x202F), (0x205F, 0x205F), (0x3000, 0x3000)]

def isBlank (c : CodePoint) : Bool :=
  blankRanges.any fun range => range.1 ≤ c.val && c.val ≤ range.2

end SchemaPlugin.CodePoint
