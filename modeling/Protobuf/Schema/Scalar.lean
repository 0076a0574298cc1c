import Protobuf.Schema.Enumeration
import Protobuf.Wire.Type

/-! The scalar types of the language and their values.  A float is its bit pattern, so that every
pattern of no number and both zeros are kept.
-/

namespace Protobuf

open Wire

/-- The type of a scalar; texts and byte strings may have a capacity in bytes. -/
inductive ScalarType where
  | int32
  | int64
  | uint32
  | uint64
  | sint32
  | sint64
  | fixed32
  | fixed64
  | sfixed32
  | sfixed64
  | bool
  | float
  | double
  | string (capacity : Option Nat)
  | bytes (capacity : Option Nat)
  | enumeration (type : EnumType)
deriving DecidableEq, Repr

/-- The value of a scalar. -/
inductive Scalar where
  | int32 (v : Int32)
  | int64 (v : Int64)
  | uint32 (v : UInt32)
  | uint64 (v : UInt64)
  | bool (v : Bool)
  | float (bits : UInt32)
  | double (bits : UInt64)
  | string (v : String)
  | bytes (v : List UInt8)
deriving DecidableEq, Repr, Inhabited

namespace ScalarType

/-- How values of the type are laid out. -/
def wireType : ScalarType → WireType
  | .int32 | .int64 | .uint32 | .uint64 | .sint32 | .sint64 | .bool | .enumeration _ => .varint
  | .fixed32 | .sfixed32 | .float => .thirtyTwoBit
  | .fixed64 | .sfixed64 | .double => .sixtyFourBit
  | .string _ | .bytes _ => .lengthDelimited

/-- The value that a field of the type has before one is set. -/
def default : ScalarType → Scalar
  | .int32 | .sint32 | .sfixed32 | .enumeration _ => .int32 0
  | .int64 | .sint64 | .sfixed64 => .int64 0
  | .uint32 | .fixed32 => .uint32 0
  | .uint64 | .fixed64 => .uint64 0
  | .bool => .bool false
  | .float => .float 0
  | .double => .double 0
  | .string _ => .string ""
  | .bytes _ => .bytes []

end ScalarType

/-- A length stays within an optional capacity. -/
@[inline]
def withinCapacity (capacity : Option Nat) (length : Nat) : Bool :=
  match capacity with
  | none => true
  | some limit => decide (length ≤ limit)

/-- A `float` pattern stands for no number. -/
def floatIsNaN (bits : UInt32) : Bool :=
  bits.toNat % 2 ^ 31 > 0x7f800000

/-- A `float` pattern stands for a zero of either sign. -/
def floatIsZero (bits : UInt32) : Bool :=
  bits.toNat % 2 ^ 31 == 0

/-- A `double` pattern stands for no number. -/
def doubleIsNaN (bits : UInt64) : Bool :=
  bits.toNat % 2 ^ 63 > 0x7ff0000000000000

/-- A `double` pattern stands for a zero of either sign. -/
def doubleIsZero (bits : UInt64) : Bool :=
  bits.toNat % 2 ^ 63 == 0

namespace Scalar

/-- The value is one that a field without presence omits: zero of either sign, false or nothing. -/
def isDefault : Scalar → Bool
  | .int32 v => v == 0
  | .int64 v => v == 0
  | .uint32 v => v == 0
  | .uint64 v => v == 0
  | .bool v => !v
  | .float bits => floatIsZero bits
  | .double bits => doubleIsZero bits
  | .string v => v.isEmpty
  | .bytes v => v.isEmpty

/-- Equality of values; no number differs from itself, and both zeros are equal. -/
def equal : Scalar → Scalar → Bool
  | .float a, .float b =>
      !floatIsNaN a && !floatIsNaN b && (a == b || (floatIsZero a && floatIsZero b))
  | .double a, .double b =>
      !doubleIsNaN a && !doubleIsNaN b && (a == b || (doubleIsZero a && doubleIsZero b))
  | a, b => a == b

/-- The order of map keys: by number, false before true, texts by their characters. -/
def compareKeys : Scalar → Scalar → Ordering
  | .int32 a, .int32 b => compare a.toInt b.toInt
  | .int64 a, .int64 b => compare a.toInt b.toInt
  | .uint32 a, .uint32 b => compare a.toNat b.toNat
  | .uint64 a, .uint64 b => compare a.toNat b.toNat
  | .bool a, .bool b => compare a.toNat b.toNat
  | .string a, .string b => compareOfLessAndEq a b
  | _, _ => .eq

end Scalar

end Protobuf
