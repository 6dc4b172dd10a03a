import SchemaPlugin.Document
import SchemaPlugin.Text.Blank
import SchemaPlugin.Text.DecimalDigit
import SchemaPlugin.Text.Quoted

/-!
Integers from documents. An integer or a truth value is one; a double loses its fraction; a text is
read as decimal digits of any script, with a sign, single underscores between digits and blanks
around.
-/

namespace SchemaPlugin

/-- Why a document gives no integer. -/
inductive IntegerError
  | infinite
  | nan
  | literal (t : Text)
  | kind (name : Text)
  deriving DecidableEq

/-- An error shows at most so many code points of a text. -/
def IntegerError.shownLength : Nat := 200

def IntegerError.message : IntegerError → Text
  | infinite => "cannot convert float infinity to integer"
  | nan => "cannot convert float NaN to integer"
  | literal t => "invalid literal for int() with base 10: " ++ t.quoted.take shownLength
  | kind name =>
    "int() argument must be a string, a bytes-like object or a real number, not '" ++ name ++ "'"

namespace Text

/-- The blanks around an integer. The information separators of ASCII are none of them. -/
def isNumberBlank (c : CodePoint) : Bool := c.isBlank && !(0x1C ≤ c.val && c.val ≤ 0x1F)

/-- The number that digits of any script spell. -/
def decimal? (t : Text) : Option Nat :=
  if t = [] then none
  else t.foldl (fun n c => do return 10 * (← n) + (← c.decimalValue?)) (some 0)

/-- The number that groups of digits between underscores spell. -/
def grouped? (t : Text) : Option Nat :=
  if (split '_' t).any (· = []) then none else decimal? (t.filter (· ≠ CodePoint.ofChar '_'))

def integer? (t : Text) : Option Int :=
  let t := t.trim isNumberBlank
  match dropPrefix? "-" t with
  | some digits => (grouped? digits).map fun n => -(n : Int)
  | none => (grouped? ((dropPrefix? "+" t).getD t)).map fun n => (n : Int)

end Text

/-- The integer of a text, a double, an array or an object; the other documents are numbers or
null. -/
def Document.integer : Document → Except IntegerError Int
  | .string t =>
    match t.integer? with
    | some n => .ok n
    | none => .error (.literal t)
  | .double (.finite negative m e) => .ok (Double.truncate negative m e)
  | .double (.infinite _) => .error .infinite
  | .double .nan => .error .nan
  | .int n => .ok n
  | .bool b => .ok (if b then 1 else 0)
  | d => .error (.kind d.kind)

end SchemaPlugin
