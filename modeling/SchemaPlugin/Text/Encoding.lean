import SchemaPlugin.Text.Utf8

/-!
The encodings a text may come in. Units of 16 and of 32 bits come with either end first. A surrogate
that is no half of a pair stays what it is.
-/

namespace SchemaPlugin

inductive Encoding
  | utf8
  | utf16 (bigEndian : Bool)
  | utf32 (bigEndian : Bool)
  deriving DecidableEq

/-- A run of bytes that is no part of a text. -/
structure Undecodable where
  encoding : Encoding
  start : Nat
  bytes : Bytes
  reason : Text
  deriving DecidableEq

namespace Encoding

def name : Encoding → Text
  | utf8 => "utf-8"
  | utf16 bigEndian => if bigEndian then "utf-16-be" else "utf-16-le"
  | utf32 bigEndian => if bigEndian then "utf-32-be" else "utf-32-le"

/-- The value of some bytes as one number. -/
def number (bigEndian : Bool) (bytes : Bytes) : Nat :=
  (if bigEndian then bytes else bytes.reverse).foldl (fun n b => 256 * n + b.toNat) 0

/-- A high and a low surrogate side by side are one code point. -/
def joinSurrogates : Text → Text
  | high :: low :: rest =>
    if high.isHighSurrogate ∧ low.isLowSurrogate then
      .ofSurrogates high low :: joinSurrogates rest
    else high :: joinSurrogates (low :: rest)
  | t => t

/-- The units of 16 bits in bytes that begin at `start`. -/
def units16 (bigEndian : Bool) (start : Nat) : Bytes → Except Undecodable Text
  | [] => .ok []
  | [b] => .error ⟨utf16 bigEndian, start, [b], "truncated data"⟩
  | a :: b :: rest => do
    return .ofNat (number bigEndian [a, b]) :: (← units16 bigEndian (start + 2) rest)

/-- The units of 32 bits in bytes that begin at `start`. -/
def units32 (bigEndian : Bool) (start : Nat) : Bytes → Except Undecodable Text
  | [] => .ok []
  | a :: b :: c :: d :: rest => do
    let n := number bigEndian [a, b, c, d]
    if n < 0x110000 then return .ofNat n :: (← units32 bigEndian (start + 4) rest)
    else .error ⟨utf32 bigEndian, start, [a, b, c, d], "code point not in range(0x110000)"⟩
  | rest => .error ⟨utf32 bigEndian, start, rest, "truncated data"⟩

end Encoding

/-- A malformed run of UTF-8 among the bytes that it was found in. -/
def Utf8.Malformed.undecodable (e : Utf8.Malformed) (bytes : Bytes) : Undecodable :=
  ⟨.utf8, e.start, (bytes.drop e.start).take e.length, e.reason.text⟩

namespace Encoding

/-- The text of bytes that begin at `start` of their source. -/
def decode (start : Nat) (bytes : Bytes) : Encoding → Except Undecodable Text
  | utf8 => (Utf8.decodeWithSurrogates bytes).mapError (·.undecodable bytes)
  | utf16 bigEndian => (units16 bigEndian start bytes).map joinSurrogates
  | utf32 bigEndian => units32 bigEndian start bytes

end Encoding

def Undecodable.message (e : Undecodable) : Text :=
  let codec := "'" ++ e.encoding.name ++ "' codec can't decode byte"
  match e.bytes with
  | [b] =>
    codec ++ " 0x" ++ Text.hex 2 b.toNat ++ " in position " ++ Text.ofNat e.start ++ ": " ++
      e.reason
  | bytes =>
    codec ++ "s in position " ++ Text.ofNat e.start ++ "-" ++
      Text.ofNat (e.start + bytes.length - 1) ++ ": " ++ e.reason

end SchemaPlugin
