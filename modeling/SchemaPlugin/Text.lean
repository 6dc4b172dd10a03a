/-!
Texts are lists of code points. A surrogate is a code point like any other: a document can spell one
alone, and only encoding as UTF-8 refuses it.
-/

namespace SchemaPlugin

/-- A Unicode code point, surrogates included. -/
structure CodePoint where
  val : Nat
  isLt : val < 0x110000
  deriving DecidableEq

namespace CodePoint

def ofChar (c : Char) : CodePoint :=
  ⟨c.toNat, by
    rcases c.valid with below | ⟨_, below⟩
    · exact Nat.lt_trans below (by decide)
    · exact below⟩

instance : Coe Char CodePoint := ⟨ofChar⟩

/-- U+FFFD stands for what could not be read. -/
def replacement : CodePoint := ⟨0xFFFD, by decide⟩

/-- The code point of a number; a number past the last one gives the replacement character. -/
def ofNat (n : Nat) : CodePoint :=
  if h : n < 0x110000 then ⟨n, h⟩ else replacement

@[simp] theorem ofNat_val (c : CodePoint) : ofNat c.val = c := by
  simp [ofNat, c.isLt]

theorem val_ofNat {n : Nat} (h : n < 0x110000) : (ofNat n).val = n := by
  simp [ofNat, h]

def isSurrogate (c : CodePoint) : Bool := 0xD800 ≤ c.val && c.val ≤ 0xDFFF

def isHighSurrogate (c : CodePoint) : Bool := 0xD800 ≤ c.val && c.val ≤ 0xDBFF

def isLowSurrogate (c : CodePoint) : Bool := 0xDC00 ≤ c.val && c.val ≤ 0xDFFF

/-- The code point that a high and a low surrogate stand for together. -/
def ofSurrogates (high low : CodePoint) : CodePoint :=
  ofNat (0x10000 + (high.val - 0xD800) * 0x400 + (low.val - 0xDC00))

/-- The digits `0` to `9`. -/
def isDigit (c : CodePoint) : Bool := 48 ≤ c.val && c.val ≤ 57

/-- The letters `A` to `Z` become small; every other code point stays. -/
def toLower (c : CodePoint) : CodePoint :=
  if 65 ≤ c.val && c.val ≤ 90 then ofNat (c.val + 32) else c

/-- The value of a hexadecimal digit, small or capital. -/
def hexValue? (c : CodePoint) : Option Nat :=
  if 48 ≤ c.val && c.val ≤ 57 then some (c.val - 48)
  else if 97 ≤ c.val && c.val ≤ 102 then some (c.val - 87)
  else if 65 ≤ c.val && c.val ≤ 70 then some (c.val - 55)
  else none

/-- A digit up to `f`, small letters. -/
def hexDigit (n : Nat) : CodePoint := ofNat (if n < 10 then 48 + n else 87 + n)

end CodePoint

abbrev Text := List CodePoint

namespace Text

instance : LawfulBEq Text := inferInstance

def ofString (s : String) : Text := s.toList.map CodePoint.ofChar

instance : Coe String Text := ⟨ofString⟩

/-- A text that can be encoded: no code point of it is a surrogate. -/
def Encodable (t : Text) : Prop := ∀ c ∈ t, c.isSurrogate = false

instance (t : Text) : Decidable t.Encodable := inferInstanceAs (Decidable (∀ c ∈ t, _))

/-- The texts one after the other, `separator` between two of them. -/
def join (separator : Text) : List Text → Text
  | [] => []
  | [t] => t
  | t :: u :: rest => t ++ separator ++ join separator (u :: rest)

/-- The pieces between the occurrences of `separator`; always at least one. -/
def split (separator : CodePoint) : Text → List Text
  | [] => [[]]
  | c :: rest =>
    if c = separator then [] :: split separator rest
    else match split separator rest with
      | [] => [[c]]
      | piece :: pieces => (c :: piece) :: pieces

/-- What follows `head`, if the text begins with it. -/
def dropPrefix? : (head : Text) → Text → Option Text
  | [], t => some t
  | _ :: _, [] => none
  | a :: head, c :: rest => if a = c then dropPrefix? head rest else none

/-- What precedes `tail`, if the text ends with it. -/
def dropSuffix? (tail t : Text) : Option Text :=
  (dropPrefix? tail.reverse t.reverse).map List.reverse

/-- The text before and after the first occurrence of `separator`. -/
def cut? (separator : CodePoint) (t : Text) : Option (Text × Text) :=
  match t.dropWhile (· ≠ separator) with
  | [] => none
  | _ :: after => some (t.takeWhile (· ≠ separator), after)

/-- The text without the code points of `blank` at either end. -/
def trim (blank : CodePoint → Bool) (t : Text) : Text :=
  ((t.dropWhile blank).reverse.dropWhile blank).reverse

/-- The text without the code points of `blank` at its end. -/
def trimEnd (blank : CodePoint → Bool) (t : Text) : Text := (t.reverse.dropWhile blank).reverse

def toLower (t : Text) : Text := t.map CodePoint.toLower

/-- The decimal digits of a number. -/
def ofNat (n : Nat) : Text :=
  if n < 10 then [CodePoint.ofNat (48 + n)] else ofNat (n / 10) ++ [CodePoint.ofNat (48 + n % 10)]

/-- The decimal digits of a number, after a minus sign if it is negative. -/
def ofInt : Int → Text
  | .ofNat n => ofNat n
  | .negSucc n => CodePoint.ofChar '-' :: ofNat (n + 1)

/-- The number that decimal digits spell. -/
def digitsValue (t : Text) : Nat := t.foldl (fun n c => 10 * n + (c.val - 48)) 0

/-- The last `width` hexadecimal digits of a number. -/
def hex : (width : Nat) → Nat → Text
  | 0, _ => []
  | width + 1, n => hex width (n / 16) ++ [CodePoint.hexDigit (n % 16)]

end Text

end SchemaPlugin
