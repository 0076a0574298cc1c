/-! The ways in which decoding or encoding of the binary format fails.  Each error is a cause; its
wording lives in one function.
-/

namespace Protobuf.Wire

/-- Why bytes were refused. -/
inductive DecodeError where
  /-- A length prefix is negative as a signed 64-bit number. -/
  | invalidLength
  /-- A varint goes on past ten bytes. -/
  | intOverflow
  /-- An end-group key has no matching start-group key. -/
  | unexpectedEndOfGroup
  /-- The input ends in the middle of a value. -/
  | unexpectedEof
  /-- The low three bits of a key name no wire type. -/
  | illegalWireType (wire : Nat)
  /-- A key carries field number zero or one past the largest. -/
  | illegalTag (tag wire : Nat)
  /-- A declared field arrived with another wire type than its own. -/
  | wrongWireType (tag expected actual : Nat)
  /-- A string field is not UTF-8. -/
  | invalidUtf8
  /-- Length-delimited records nest too deep. -/
  | recursionLimitExceeded
  /-- A bounded container can not hold the decoded value. -/
  | capacityExceeded
deriving DecidableEq, Repr, Inhabited

/-- The wording of a decoding error. -/
def DecodeError.message : DecodeError → String
  | .invalidLength => "proto: negative length found during unmarshaling"
  | .intOverflow => "proto: integer overflow"
  | .unexpectedEndOfGroup => "proto: unexpected end of group"
  | .unexpectedEof => "unexpected EOF"
  | .illegalWireType wire => "proto: illegal wireType " ++ toString wire
  | .illegalTag tag wire =>
      "proto: illegal tag " ++ toString tag ++ " (wire type " ++ toString wire ++ ")"
  | .wrongWireType tag expected actual =>
      "proto: wrong wireType = " ++ toString actual ++ " for field " ++ toString tag
        ++ ", expected " ++ toString expected
  | .invalidUtf8 => "proto: invalid UTF-8 in string field"
  | .recursionLimitExceeded => "proto: max recursion depth exceeded"
  | .capacityExceeded => "proto: value exceeds container capacity"

/-- Why a message could not be written. -/
inductive EncodeError where
  /-- The free space is smaller than the next bytes. -/
  | insufficientSpace (needed available : Nat)
  /-- Fewer bytes were written than the size announced. -/
  | sizeMismatch (expected written : Nat)
deriving DecidableEq, Repr, Inhabited

/-- The wording of an encoding error. -/
def EncodeError.message : EncodeError → String
  | .insufficientSpace needed available =>
      "buffer too small: " ++ toString needed ++ " bytes needed, " ++ toString available
        ++ " available"
  | .sizeMismatch expected written =>
      "encoded size " ++ toString written ++ " does not match computed size " ++ toString expected

end Protobuf.Wire
