import SchemaPlugin.Text

/-!
Binary floating-point numbers of 64 bits, held exactly: a finite one is a mantissa below 2^53 times
a power of two. A decimal is read as the nearest of them, and of two equally near ones as the one
whose mantissa is even.
-/

namespace SchemaPlugin

inductive Double
  | nan
  | infinite (negative : Bool)
  | finite (negative : Bool) (mantissa : Nat) (exponent : Int)
  deriving DecidableEq

namespace Double

/-- The least exponent. -/
def minExponent : Int := -1074

/-- The greatest exponent of a finite number. -/
def maxExponent : Int := 971

def twoTo (n : Nat) : Nat := Nat.pow 2 n

def tenTo (n : Nat) : Nat := Nat.pow 10 n

/-- A mantissa has at most so many bits. -/
def precision : Nat := 53

/-- A fraction times a power of two, as a fraction. -/
def shift (num den : Nat) (e : Int) : Nat × Nat :=
  if 0 ≤ e then (num * twoTo e.toNat, den) else (num, den * twoTo (-e).toNat)

/-- The integer nearest to a fraction; of two equally near ones, the even one. -/
def roundHalfEven (num den : Nat) : Nat :=
  let quotient := num / den
  let rest := 2 * (num % den)
  if rest < den ∨ rest = den ∧ quotient % 2 = 0 then quotient else quotient + 1

/-- The greatest power of two that is not above a fraction, by its exponent. -/
def log2 (num den : Nat) : Int :=
  let estimate : Int := (num.log2 : Int) - den.log2
  let (a, b) := shift num den (-estimate)
  if b ≤ a then estimate else estimate - 1

/-- The nearest number to a fraction that is not zero. -/
def ofRatio (negative : Bool) (num den : Nat) : Double :=
  let e := max (log2 num den - (precision - 1)) minExponent
  let (a, b) := shift num den (-e)
  let m := roundHalfEven a b
  let (m, e) := if m = twoTo precision then (twoTo (precision - 1), e + 1) else (m, e)
  if maxExponent < e then .infinite negative else .finite negative m e

/-- The nearest number to `digits` times a power of ten. Whatever lies far outside the range is not
computed. -/
def ofDecimal (negative : Bool) (digits : Nat) (exponent : Int) : Double :=
  let magnitude : Int := (Text.ofNat digits).length + exponent
  if digits = 0 ∨ magnitude < -400 then .finite negative 0 minExponent
  else if 400 < magnitude then .infinite negative
  else if 0 ≤ exponent then ofRatio negative (digits * tenTo exponent.toNat) 1
  else ofRatio negative digits (tenTo (-exponent).toNat)

def isZero : Double → Bool
  | .finite _ 0 _ => true
  | _ => false

/-- A finite number without its fraction. -/
def truncate (negative : Bool) (mantissa : Nat) (exponent : Int) : Int :=
  let (num, den) := shift mantissa 1 exponent
  if negative then -(num / den : Nat) else (num / den : Nat)

/-- The integer that a number is equal to. -/
def toInt? : Double → Option Int
  | .finite negative m e =>
    let (num, den) := shift m 1 e
    if num % den = 0 then some (truncate negative m e) else none
  | _ => none

end Double

end SchemaPlugin
