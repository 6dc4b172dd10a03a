import SchemaPlugin.Text.Utf8

/-!
What can be wrong with encoded bytes. An error names its cause and the offset it was found at, in
the buffer being read; a value cut short also tells how many bytes it needs and how many are left.
-/

namespace SchemaPlugin.Wire

/-- A value whose size is known before it is read. -/
inductive Sized
  | fixed32
  | fixed64
  | lengthDelimited
  | skipped
  deriving DecidableEq

/-- The cause of a decode error. -/
inductive Fault
  | varintCut
  | varintOverflow
  | fieldNumberZero
  | unknownWireType (n : Int)
  | valueCut (value : Sized) (expected available : Nat)
  | invalidText (reason : Utf8.Reason)
  | unknownLabel (n : Nat)
  | nestingTooDeep (levels : Nat)
  deriving DecidableEq

structure DecodeError where
  fault : Fault
  offset : Nat
  deriving DecidableEq

def Sized.action : Sized → Text
  | .fixed32 => "reading fixed32"
  | .fixed64 => "reading fixed64"
  | .lengthDelimited => "reading length-delimited value"
  | .skipped => "skipping field"

def Fault.text : Fault → Text
  | .varintCut => "Unexpected end of data while reading varint"
  | .varintOverflow => "Varint overflows 64 bits"
  | .fieldNumberZero => "Invalid field number 0"
  | .unknownWireType n => "Unknown wire type: " ++ Text.ofInt n
  | .valueCut value _ _ => "Unexpected end of data while " ++ value.action
  | .invalidText reason => "Invalid UTF-8 in string field: " ++ reason.text
  | .unknownLabel n => "Unknown field label " ++ Text.ofNat n
  | .nestingTooDeep levels => "Message nesting exceeds " ++ Text.ofNat levels ++ " levels"

namespace DecodeError

/-- The bytes that the value needs, where that is known. -/
def expected? (e : DecodeError) : Option Nat :=
  match e.fault with
  | .valueCut _ expected _ => some expected
  | _ => none

/-- The bytes that are left for the value, where its need is known. -/
def available? (e : DecodeError) : Option Nat :=
  match e.fault with
  | .valueCut _ _ available => some available
  | _ => none

def message (e : DecodeError) : Text :=
  let place := e.fault.text ++ " at offset " ++ Text.ofNat e.offset
  match e.fault with
  | .valueCut _ expected available =>
    place ++ " (need " ++ Text.ofNat expected ++ " bytes, " ++ Text.ofNat available ++ " available)"
  | _ => place

end DecodeError

end SchemaPlugin.Wire
