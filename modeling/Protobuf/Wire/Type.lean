import Protobuf.Number.Power

/-! Wire types and field numbers: what the key in front of every record says.
-/

namespace Protobuf.Wire

/-- How the value of a record is laid out. -/
inductive WireType where
  | varint
  | sixtyFourBit
  | lengthDelimited
  | startGroup
  | endGroup
  | thirtyTwoBit
deriving DecidableEq, Repr, Inhabited

/-- The number that stands for the wire type in a key. -/
def WireType.code : WireType → Nat
  | .varint => 0
  | .sixtyFourBit => 1
  | .lengthDelimited => 2
  | .startGroup => 3
  | .endGroup => 4
  | .thirtyTwoBit => 5

/-- The wire type with the given number. -/
def WireType.ofCode? : Nat → Option WireType
  | 0 => some .varint
  | 1 => some .sixtyFourBit
  | 2 => some .lengthDelimited
  | 3 => some .startGroup
  | 4 => some .endGroup
  | 5 => some .thirtyTwoBit
  | _ => none

theorem WireType.ofCode?_code (wire : WireType)
    : ofCode? wire.code = some wire := by
  cases wire <;> rfl

/-- The largest field number of the language. -/
def maxTag : Nat := 2 ^ 29 - 1

/-- How many length-delimited records may nest inside a message. -/
def recursionLimit : Nat := 128

/-- The number in front of a record: the field number shifted over the wire type, cut to 32 bits. -/
def keyCode (tag : Nat) (wire : WireType) : UInt64 :=
  UInt64.ofNat ((tag * 8 + wire.code) % 2 ^ 32)

end Protobuf.Wire
