import Protobuf.Text.Utf8
import Protobuf.Schema.Scalar
import Protobuf.Wire.Reader
import Protobuf.Wire.Writer
import Protobuf.Wire.Zigzag

/-! Scalars on the wire.  A scalar becomes a varint, a fixed number or delimited bytes, and is found
again from that.
-/

namespace Protobuf.Wire

/-- What is written for one scalar behind the key. -/
inductive Payload where
  | varint (v : UInt64)
  | fixed32 (v : UInt32)
  | fixed64 (v : UInt64)
  | delimited (bytes : List UInt8)
  | nothing
deriving DecidableEq, Repr

namespace Payload

/-- How many bytes the payload takes. -/
def size : Payload → Nat
  | .varint v => varintSize v
  | .fixed32 _ => 4
  | .fixed64 _ => 8
  | .delimited bytes => varintSize (UInt64.ofNat bytes.length) + bytes.length
  | .nothing => 0

/-- Writes the payload. -/
def write : Payload → Encoder
  | .varint v => Encoder.varint v
  | .fixed32 v => Encoder.fixed32 v
  | .fixed64 v => Encoder.fixed64 v
  | .delimited bytes => Encoder.lengthDelimited (Encoder.put bytes)
  | .nothing => Encoder.skip

end Payload

/-- What a scalar of a type is written as; a value of another type is not written. -/
def payload : ScalarType → Scalar → Payload
  | .int32, .int32 v => .varint v.toInt64.toUInt64
  | .enumeration _, .int32 v => .varint v.toInt64.toUInt64
  | .int64, .int64 v => .varint v.toUInt64
  | .uint32, .uint32 v => .varint v.toUInt64
  | .uint64, .uint64 v => .varint v
  | .sint32, .int32 v => .varint (zigzag32 v).toUInt64
  | .sint64, .int64 v => .varint (zigzag64 v)
  | .bool, .bool v => .varint (if v then 1 else 0)
  | .fixed32, .uint32 v => .fixed32 v
  | .sfixed32, .int32 v => .fixed32 v.toUInt32
  | .float, .float bits => .fixed32 bits
  | .fixed64, .uint64 v => .fixed64 v
  | .sfixed64, .int64 v => .fixed64 v.toUInt64
  | .double, .double bits => .fixed64 bits
  | .string _, .string v => .delimited (Text.utf8 v)
  | .bytes _, .bytes v => .delimited v
  | _, _ => .nothing

/-- How many bytes a scalar of a type takes without its key, as it is computed before it is written;
a length in front counts.
-/
def scalarSize : ScalarType → Scalar → Nat
  | .int32, .int32 v => varintSize v.toInt64.toUInt64
  | .enumeration _, .int32 v => varintSize v.toInt64.toUInt64
  | .int64, .int64 v => varintSize v.toUInt64
  | .uint32, .uint32 v => varintSize v.toUInt64
  | .uint64, .uint64 v => varintSize v
  | .sint32, .int32 v => varintSize (zigzag32 v).toUInt64
  | .sint64, .int64 v => zigzagSize v.toUInt64
  | .bool, .bool _ => 1
  | .fixed32, .uint32 _ => 4
  | .sfixed32, .int32 _ => 4
  | .float, .float _ => 4
  | .fixed64, .uint64 _ => 8
  | .sfixed64, .int64 _ => 8
  | .double, .double _ => 8
  | .string _, .string v =>
      varintSize (UInt64.ofNat (Text.utf8 v).length) + (Text.utf8 v).length
  | .bytes _, .bytes v => varintSize (UInt64.ofNat v.length) + v.length
  | _, _ => 0

/-- The scalar that a varint denotes. -/
def ofVarint : ScalarType → UInt64 → Scalar
  | .int32, v => .int32 v.toUInt32.toInt32
  | .enumeration _, v => .int32 v.toUInt32.toInt32
  | .int64, v => .int64 v.toInt64
  | .uint32, v => .uint32 v.toUInt32
  | .uint64, v => .uint64 v
  | .sint32, v => .int32 (unzigzag32 v.toUInt32)
  | .sint64, v => .int64 (unzigzag64 v)
  | .bool, v => .bool (v != 0)
  | type, _ => type.default

/-- The scalar that a fixed 32-bit number denotes. -/
def ofFixed32 : ScalarType → UInt32 → Scalar
  | .fixed32, v => .uint32 v
  | .sfixed32, v => .int32 v.toInt32
  | .float, v => .float v
  | type, _ => type.default

/-- The scalar that a fixed 64-bit number denotes. -/
def ofFixed64 : ScalarType → UInt64 → Scalar
  | .fixed64, v => .uint64 v
  | .sfixed64, v => .int64 v.toInt64
  | .double, v => .double v
  | type, _ => type.default

/-- Reads a scalar of a type. -/
def readScalar (type : ScalarType) : Decoder Scalar :=
  match type with
  | .string capacity => do
      let text ← Decoder.text
      if withinCapacity capacity (Text.utf8 text).length then return .string text
      else throw .capacityExceeded
  | .bytes capacity => do
      let bytes ← Decoder.lengthDelimited
      if withinCapacity capacity bytes.length then return .bytes bytes
      else throw .capacityExceeded
  | type =>
      match type.wireType with
      | .thirtyTwoBit => return ofFixed32 type (← Decoder.fixed32)
      | .sixtyFourBit => return ofFixed64 type (← Decoder.fixed64)
      | _ => return ofVarint type (← Decoder.varint)

theorem consumes_readScalar (type : ScalarType)
    : (readScalar type).Consumes := by
  unfold readScalar
  split
  · refine Decoder.consumes_text.bind fun text => ?_
    split
    · exact Decoder.shrinks_pure _
    · exact Decoder.shrinks_throw _
  · refine Decoder.consumes_lengthDelimited.bind fun bytes => ?_
    split
    · exact Decoder.shrinks_pure _
    · exact Decoder.shrinks_throw _
  · split
    · exact Decoder.consumes_fixed32.bind fun _ => Decoder.shrinks_pure _
    · exact Decoder.consumes_fixed64.bind fun _ => Decoder.shrinks_pure _
    · exact Decoder.consumes_varint.bind fun _ => Decoder.shrinks_pure _

/-- The outcome of merging input into a value: what the value is now, what went wrong, and the
bytes that are left.
-/
structure Merged (α : Type) where
  value : α
  failure : Option DecodeError
  rest : List UInt8

/-- Replaces a scalar by the next one in the input.  A text or byte string that does not fit leaves
an empty one behind.
-/
def mergeScalar (type : ScalarType) (current : Scalar) (bytes : List UInt8) : Merged Scalar :=
  match readScalar type bytes with
  | .ok value rest => ⟨value, none, rest⟩
  | .error e rest => ⟨if e = .capacityExceeded then type.default else current, some e, rest⟩

theorem length_of_mergeScalar (type : ScalarType) (current : Scalar) (bytes : List UInt8)
    : (mergeScalar type current bytes).rest.length ≤ bytes.length := by
  have h := (consumes_readScalar type).shrinks bytes
  unfold mergeScalar
  cases hd : readScalar type bytes <;> simpa [hd] using h

end Protobuf.Wire
