import Protobuf.Wire.Varint

/-! The zigzag order of the integers, 0, -1, 1, -2, 2, …, which gives small numbers of either sign
a short varint.
-/

namespace Protobuf.Wire

/-- Zigzag number of a 32-bit integer. -/
def zigzag32 (v : Int32) : UInt32 :=
  ((v <<< 1) ^^^ (v >>> 31)).toUInt32

/-- The 32-bit integer with the given zigzag number. -/
def unzigzag32 (n : UInt32) : Int32 :=
  (n >>> 1).toInt32 ^^^ -(n &&& 1).toInt32

/-- Zigzag number of a 64-bit integer. -/
def zigzag64 (v : Int64) : UInt64 :=
  ((v <<< 1) ^^^ (v >>> 63)).toUInt64

/-- The 64-bit integer with the given zigzag number. -/
def unzigzag64 (n : UInt64) : Int64 :=
  (n >>> 1).toInt64 ^^^ -(n &&& 1).toInt64

/-- How many bytes the varint of the zigzag number takes, given the bits of the integer. -/
def zigzagSize (v : UInt64) : Nat :=
  varintSize ((v <<< 1) ^^^ (v.toInt64 >>> 63).toUInt64)

end Protobuf.Wire
