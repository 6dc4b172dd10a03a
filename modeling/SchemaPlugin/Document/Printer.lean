import SchemaPlugin.Document

/-!
Documents as JSON in ASCII. Without an indent everything is on one line; with one, every item and
every member has its own line, as many spaces in as the indent says for each level.
-/

namespace SchemaPlugin.Document

/-- The escapes of one letter. -/
def letterEscapes : List (Char × Char) :=
  [('"', '"'), ('\\', '\\'), ('/', '/'), ('b', '\x08'), ('f', '\x0c'), ('n', '\n'), ('r', '\r'),
    ('t', '\t')]

/-- The escape of a unit of 16 bits. -/
def unitEscape (n : Nat) : Text := "\\u" ++ Text.hex 4 n

/-- A code point inside a string. What is not printable ASCII is escaped, in two units if it takes
two. -/
def escaped (c : CodePoint) : Text :=
  if c = '/' then [c]
  else match letterEscapes.find? fun e => CodePoint.ofChar e.2 = c with
    | some (letter, _) => ['\\', letter]
    | none =>
      if 0x20 ≤ c.val ∧ c.val < 0x7F then [c]
      else if c.val < 0x10000 then unitEscape c.val
      else
        unitEscape (0xD800 + (c.val - 0x10000) / 0x400) ++
          unitEscape (0xDC00 + (c.val - 0x10000) % 0x400)

def printString (t : Text) : Text := "\"" ++ t.flatMap escaped ++ "\""

def printDouble : Double → Text
  | .nan => "NaN"
  | .infinite negative => if negative then "-Infinity" else "Infinity"
  | x => x.text

/-- The break before the first item of a level and after the last one; an indent below zero is
none. -/
def lineBreak (indent : Option Int) (level : Nat) : Text :=
  match indent with
  | none => []
  | some n => "\n" ++ List.replicate (n.toNat * level) (CodePoint.ofChar ' ')

/-- What stands between two items of a level. -/
def separator (indent : Option Int) (level : Nat) : Text :=
  match indent with
  | none => ", "
  | some _ => "," ++ lineBreak indent level

mutual

def printAt (indent : Option Int) (level : Nat) : Document → Text
  | null => "null"
  | bool b => if b then "true" else "false"
  | int n => Text.ofInt n
  | double x => printDouble x
  | string t => printString t
  | array [] => "[]"
  | array (d :: rest) =>
    "[" ++ lineBreak indent (level + 1) ++ printAt indent (level + 1) d ++
      printItems indent (level + 1) rest ++ lineBreak indent level ++ "]"
  | object [] => "\x7b\x7d"
  | object ((key, d) :: rest) =>
    "\x7b" ++ lineBreak indent (level + 1) ++ printString key ++ ": " ++
      printAt indent (level + 1) d ++ printMembers indent (level + 1) rest ++
      lineBreak indent level ++ "\x7d"

/-- Items that follow others. -/
def printItems (indent : Option Int) (level : Nat) : List Document → Text
  | [] => []
  | d :: rest => separator indent level ++ printAt indent level d ++ printItems indent level rest

/-- Members that follow others. -/
def printMembers (indent : Option Int) (level : Nat) : List (Text × Document) → Text
  | [] => []
  | (key, d) :: rest =>
    separator indent level ++ printString key ++ ": " ++ printAt indent level d ++
      printMembers indent level rest

end

def print (indent : Option Int) (d : Document) : Text := printAt indent 0 d

end SchemaPlugin.Document
