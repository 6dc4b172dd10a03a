import SchemaPlugin.Double

/-!
Numbers as decimals: of the decimals that are read as the number, those with the fewest digits, and
of these the nearest one. A decimal is read as the number if it lies between the halfway points to
the two neighbours; these belong to it if the mantissa is even.
-/

namespace SchemaPlugin.Double

/-- Whether one integer times a power of ten is below another times a power of two. -/
def decimalBelow (c : Nat) (g : Int) (x : Nat) (e : Int) : Bool :=
  c * tenTo g.toNat * twoTo (-e).toNat < x * twoTo e.toNat * tenTo (-g).toNat

def decimalAbove (c : Nat) (g : Int) (x : Nat) (e : Int) : Bool :=
  x * twoTo e.toNat * tenTo (-g).toNat < c * tenTo g.toNat * twoTo (-e).toNat

/-- Whether the decimal `c` times the power `g` of ten is read as the number `m`, `e`. In quarters
of the unit of the mantissa, the halfway points are two away, or one where the next number below is
twice as near. -/
def readsBack (m : Nat) (e : Int) (g : Int) (c : Nat) : Bool :=
  let low := 4 * m - if m = twoTo (precision - 1) ∧ minExponent < e then 1 else 2
  let high := 4 * m + 2
  if m % 2 = 0 then !decimalBelow c g low (e - 2) && !decimalAbove c g high (e - 2)
  else decimalAbove c g low (e - 2) && decimalBelow c g high (e - 2)

/-- The least power of ten above the number. -/
def powerAbove (m : Nat) (e : Int) : Int :=
  let estimate := (m.log2 + e) * 1233 / 4096
  if decimalAbove 1 (estimate - 1) m e then estimate - 1
  else if decimalAbove 1 estimate m e then estimate
  else if decimalAbove 1 (estimate + 1) m e then estimate + 1
  else estimate + 2

/-- The nearest multiple of the power `g` of ten that is read as the number; on a tie the even
one. -/
def nearest? (m : Nat) (e g : Int) : Option Nat :=
  let (num, den) := shift (m * tenTo (-g).toNat) (tenTo g.toNat) e
  let c := num / den
  let near := roundHalfEven num den
  let far := if near = c then c + 1 else c
  if readsBack m e g near then some near
  else if readsBack m e g far then some far
  else none

/-- The decimal of the fewest digits, trying `left` numbers of digits from `count` on. -/
def search (m : Nat) (e : Int) (count : Nat) : (left : Nat) → Nat × Int
  | 0 => (roundHalfEven (shift m 1 e).1 (shift m 1 e).2, 0)
  | left + 1 =>
    let g := powerAbove m e - count
    match nearest? m e g with
    | some c => (c, g)
    | none => search m e (count + 1) left

/-- The digits of a decimal without the zeros at the end, and the place of the point after the first
digit or, if not positive, before it. -/
def digits (m : Nat) (e : Int) : Text × Int :=
  if m = 0 then ("0", 1)
  else
    let (c, g) := search m e 1 17
    let all := Text.ofNat c
    (Text.trimEnd (· = CodePoint.ofChar '0') all, all.length + g)

def zeros (n : Nat) : Text := List.replicate n (CodePoint.ofChar '0')

/-- An exponent has a sign and at least two digits. -/
def exponentText (n : Int) : Text :=
  let magnitude := Text.ofNat n.natAbs
  (if n < 0 then "e-" else "e+") ++ zeros (2 - magnitude.length) ++ magnitude

/-- Digits with the point at its place; far from them, with an exponent. -/
def layout (digits : Text) (point : Int) : Text :=
  if point ≤ -4 ∨ 16 < point then
    let fraction : Text := digits.drop 1
    digits.take 1 ++ (if fraction = [] then [] else Text.ofString "." ++ fraction) ++
      exponentText (point - 1)
  else if point ≤ 0 then Text.ofString "0." ++ zeros (-point).toNat ++ digits
  else
    let fraction : Text := digits.drop point.toNat
    digits.take point.toNat ++ zeros (point.toNat - digits.length) ++ Text.ofString "." ++
      if fraction = [] then zeros 1 else fraction

def text : Double → Text
  | .nan => "nan"
  | .infinite negative => if negative then "-inf" else "inf"
  | .finite negative m e =>
    let (ds, point) := digits m e
    (if negative then Text.ofString "-" else []) ++ layout ds point

end SchemaPlugin.Double
