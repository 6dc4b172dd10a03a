import SchemaPlugin.Text

/-!
UTF-8. Bytes are read into pieces: code points, and runs that are no part of any, each as long as
the sequence that was still possible when it broke off. The first byte of a sequence says how many
bytes follow and, where an overlong form, a surrogate or a number past U+10FFFF has to be kept out,
which range the second one must lie in.
-/

namespace SchemaPlugin

abbrev Bytes := List UInt8

namespace Utf8

/-- Why a run of bytes is not a code point. -/
inductive Reason
  | startByte
  | continuationByte
  | endOfData
  deriving DecidableEq

def Reason.text : Reason → Text
  | .startByte => "invalid start byte"
  | .continuationByte => "invalid continuation byte"
  | .endOfData => "unexpected end of data"

/-- What a stretch of bytes holds: a code point, or `length` bytes that are no part of one. -/
inductive Piece
  | point (c : CodePoint)
  | malformed (length : Nat) (reason : Reason)
  deriving DecidableEq

/-- A sequence that has begun: bytes taken and owed, the range of the next byte, and the bits so
far. -/
structure Begun where
  taken : Nat
  owed : Nat
  low : Nat
  high : Nat
  bits : Nat

/-- The sequence that a byte of 0x80 or more begins. With `surrogates`, those are sequences too. -/
def begin? (surrogates : Bool) (b : Nat) : Option Begun :=
  if b < 0xC2 then none
  else if b < 0xE0 then some ⟨1, 1, 0x80, 0xBF, b - 0xC0⟩
  else if b = 0xE0 then some ⟨1, 2, 0xA0, 0xBF, 0⟩
  else if b = 0xED && !surrogates then some ⟨1, 2, 0x80, 0x9F, 0xD⟩
  else if b < 0xF0 then some ⟨1, 2, 0x80, 0xBF, b - 0xE0⟩
  else if b = 0xF0 then some ⟨1, 3, 0x90, 0xBF, 0⟩
  else if b < 0xF4 then some ⟨1, 3, 0x80, 0xBF, b - 0xF0⟩
  else if b = 0xF4 then some ⟨1, 3, 0x80, 0x8F, 4⟩
  else none

/-- A sequence that breaks off is one malformed run; the start of a surrogate is two, as it is where
surrogates are no sequences. -/
def Begun.broken (s : Begun) (reason : Reason) : List Piece :=
  if s.taken = 2 ∧ 0x360 ≤ s.bits ∧ s.bits < 0x380 then
    [.malformed 1 .continuationByte, .malformed 1 .startByte]
  else [.malformed s.taken reason]

/-- The pieces of the bytes that follow a sequence begun, or of bytes that follow none. -/
def piecesAfter (surrogates : Bool) : Option Begun → Bytes → List Piece
  | none, [] => []
  | some s, [] => s.broken .endOfData
  | none, b :: rest => first b rest
  | some s, b :: rest =>
    if s.low ≤ b.toNat ∧ b.toNat ≤ s.high then
      let bits := s.bits * 64 + b.toNat % 64
      if s.owed = 1 then .point (.ofNat bits) :: piecesAfter surrogates none rest
      else piecesAfter surrogates (some ⟨s.taken + 1, s.owed - 1, 0x80, 0xBF, bits⟩) rest
    else s.broken .continuationByte ++ first b rest
where
  first (b : UInt8) (rest : Bytes) : List Piece :=
    if b.toNat < 0x80 then .point (.ofNat b.toNat) :: piecesAfter surrogates none rest
    else match begin? surrogates b.toNat with
      | none => .malformed 1 .startByte :: piecesAfter surrogates none rest
      | some s => piecesAfter surrogates (some s) rest

def pieces (surrogates : Bool) (bytes : Bytes) : List Piece := piecesAfter surrogates none bytes

/-- The number of bytes that a code point takes. -/
def width (c : CodePoint) : Nat :=
  if c.val < 0x80 then 1 else if c.val < 0x800 then 2 else if c.val < 0x10000 then 3 else 4

/-- The first malformed run of some bytes. -/
structure Malformed where
  start : Nat
  length : Nat
  reason : Reason
  deriving DecidableEq

/-- The text of pieces that begin at `start`, or the first run that is no code point. -/
def textOf (start : Nat) : List Piece → Except Malformed Text
  | [] => .ok []
  | .point c :: rest => do return c :: (← textOf (start + width c) rest)
  | .malformed length reason :: _ => .error ⟨start, length, reason⟩

def decode (bytes : Bytes) : Except Malformed Text := textOf 0 (pieces false bytes)

/-- Decoding that takes the three bytes of a surrogate for that surrogate. -/
def decodeWithSurrogates (bytes : Bytes) : Except Malformed Text := textOf 0 (pieces true bytes)

/-- Decoding that puts U+FFFD in the place of each malformed run. -/
def decodeLossy (bytes : Bytes) : Text :=
  (pieces false bytes).map fun
    | .point c => c
    | .malformed _ _ => .replacement

/-- The bytes of a code point, the highest bits first. -/
def bytesOf (c : CodePoint) : Bytes :=
  if c.val < 0x80 then [.ofNat c.val]
  else if c.val < 0x800 then [.ofNat (0xC0 + c.val / 0x40), continuation c.val]
  else if c.val < 0x10000 then
    [.ofNat (0xE0 + c.val / 0x1000), continuation (c.val / 0x40), continuation c.val]
  else
    [.ofNat (0xF0 + c.val / 0x40000), continuation (c.val / 0x1000), continuation (c.val / 0x40),
      continuation c.val]
where
  continuation (n : Nat) : UInt8 := .ofNat (0x80 + n % 0x40)

/-- The first run of adjacent surrogates in a text. -/
structure Unencodable where
  start : Nat
  first : CodePoint
  length : Nat
  deriving DecidableEq

def Unencodable.message (e : Unencodable) : Text :=
  let codec : Text := "'utf-8' codec can't encode character"
  let reason : Text := ": surrogates not allowed"
  if e.length = 1 then
    codec ++ " '\\u" ++ Text.hex 4 e.first.val ++ "' in position " ++ Text.ofNat e.start ++ reason
  else
    codec ++ "s in position " ++ Text.ofNat e.start ++ "-" ++
      Text.ofNat (e.start + e.length - 1) ++ reason

def unencodable? (t : Text) : Option Unencodable :=
  match t.dropWhile (!·.isSurrogate) with
  | [] => none
  | c :: rest =>
    some ⟨(t.takeWhile (!·.isSurrogate)).length, c, 1 + (rest.takeWhile (·.isSurrogate)).length⟩

/-- The bytes of a text; a text with a surrogate has none. -/
def encode (t : Text) : Except Unencodable Bytes :=
  match unencodable? t with
  | none => .ok (t.flatMap bytesOf)
  | some e => .error e

end Utf8

end SchemaPlugin
