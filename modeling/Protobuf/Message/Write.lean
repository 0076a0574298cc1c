import Protobuf.Message.Basic
import Protobuf.Wire.Payload

/-! The binary form of a message: its members in the order of their tags, then the unknown records.
Sizes are computed apart from the writing, which goes from the last byte to the first.  The entries
of a map are visited in ascending order of their keys.
-/

namespace Protobuf

open Wire

/-- How many bytes the key of a field takes. -/
def keySize (tag : Nat) : Nat :=
  varintSize (UInt64.ofNat (tag * 8 % 2 ^ 32))

/-- How many bytes a payload with its length takes. -/
def delimitedSize (size : Nat) : Nat :=
  varintSize (UInt64.ofNat size) + size

/-- The size of an entry of a map whose value has the given size. -/
def entrySize (tag : Nat) (key : ScalarType) (k : Scalar) (value : Nat) : Nat :=
  keySize tag + delimitedSize (keySize 1 + scalarSize key k + keySize 2 + value)

/-- Writes an entry of a map, given what writes its value. -/
def writeEntry (tag : Nat) (key : ScalarType) (k : Scalar) (type : ValueType) (value : Encoder)
    : Encoder := do
  Encoder.lengthDelimited do
    value
    Encoder.key 2 type.wireType
    (payload key k).write
    Encoder.key 1 key.wireType
  Encoder.key tag .lengthDelimited

/-- A scalar value that a member without presence omits. -/
def Value.isOmitted : Value → Bool
  | .scalar v => v.isDefault
  | .message _ => false

/-- The counters of a filler message: the announced and the written number of bytes. -/
def fillerCounters : List Slot → Nat × Nat
  | [.one (.scalar (.uint32 claim)), .one (.scalar (.uint32 write))] => (claim.toNat, write.toNat)
  | _ => (0, 0)

mutual

/-- The size of a value without its key. -/
def Value.size (s : Schema) (type : ValueType) : Value → Nat
  | .scalar v =>
      match type with
      | .scalar type => scalarSize type v
      | .message _ => 0
  | .message m =>
      match type with
      | .scalar _ => 0
      | .message name => delimitedSize (m.size s (s.type name))

/-- The size of a message. -/
def Message.size (s : Schema) (t : MessageType) : Message → Nat
  | ⟨slots, unknown⟩ =>
      if t.form = .filler then (fillerCounters slots).1
      else slotsSize s t.members slots + unknown.length

/-- The size of the members of a message. -/
def slotsSize (s : Schema) (members : List Member) : List Slot → Nat
  | [] => 0
  | slot :: slots =>
      match members with
      | [] => 0
      | m :: members => slot.size s m + slotsSize s members slots

/-- The size of one member with its keys. -/
def Slot.size (s : Schema) (m : Member) : Slot → Nat
  | .none => 0
  | .one v =>
      match m.shape with
      | .single type => if v.isOmitted then 0 else keySize m.tag + v.size s type
      | .optional type => keySize m.tag + v.size s type
      | _ => 0
  | .many vs =>
      match m.shape with
      | .repeated type packed _ =>
          if vs.isEmpty then 0
          else if packed then keySize m.tag + delimitedSize (elementsSize s type vs)
          else keySize m.tag * vs.length + elementsSize s type vs
      | _ => 0
  | .entries es =>
      match m.shape with
      | .map key value => (inKeyOrder (entrySizes s m.tag key value es)).foldr (· + ·) 0
      | _ => 0
  | .choice tag v =>
      match m.alternative? tag with
      | some a => keySize tag + v.size s a.type
      | none => 0

/-- The size of the elements of a repeated member without their keys. -/
def elementsSize (s : Schema) (type : ValueType) : List Value → Nat
  | [] => 0
  | v :: vs => v.size s type + elementsSize s type vs

/-- The sizes of the entries of a map under their keys. -/
def entrySizes (s : Schema) (tag : Nat) (key : ScalarType) (value : ValueType)
    : List Entry → List (Scalar × Nat)
  | [] => []
  | ⟨k, v⟩ :: es =>
      (k, entrySize tag key k (v.size s value)) :: entrySizes s tag key value es

end

mutual

/-- Writes a value without its key. -/
def Value.write (s : Schema) (type : ValueType) : Value → Encoder
  | .scalar v =>
      match type with
      | .scalar type => (payload type v).write
      | .message _ => Encoder.skip
  | .message m =>
      match type with
      | .scalar _ => Encoder.skip
      | .message name => Encoder.lengthDelimited (m.write s (s.type name))

/-- Writes a message. -/
def Message.write (s : Schema) (t : MessageType) : Message → Encoder
  | ⟨slots, unknown⟩ =>
      if t.form = .filler then Encoder.put (List.replicate (fillerCounters slots).2 0)
      else do
        Encoder.put unknown
        writeSlots s t.members slots

/-- Writes the members of a message, the last one first. -/
def writeSlots (s : Schema) (members : List Member) : List Slot → Encoder
  | [] => Encoder.skip
  | slot :: slots =>
      match members with
      | [] => Encoder.skip
      | m :: members => do
          writeSlots s members slots
          slot.write s m

/-- Writes one member with its keys. -/
def Slot.write (s : Schema) (m : Member) : Slot → Encoder
  | .none => Encoder.skip
  | .one v =>
      match m.shape with
      | .single type =>
          if v.isOmitted then Encoder.skip
          else do
            v.write s type
            Encoder.key m.tag type.wireType
      | .optional type => do
          v.write s type
          Encoder.key m.tag type.wireType
      | _ => Encoder.skip
  | .many vs =>
      match m.shape with
      | .repeated type packed _ =>
          if vs.isEmpty then Encoder.skip
          else if packed then do
            Encoder.lengthDelimited (writePacked s type vs)
            Encoder.key m.tag .lengthDelimited
          else writeElements s m.tag type vs
      | _ => Encoder.skip
  | .entries es =>
      match m.shape with
      | .map key value => Encoder.fromLast (inKeyOrder (entryWriters s m.tag key value es))
      | _ => Encoder.skip
  | .choice tag v =>
      match m.alternative? tag with
      | some a => do
          v.write s a.type
          Encoder.key tag a.type.wireType
      | none => Encoder.skip

/-- Writes elements without keys, the last one first. -/
def writePacked (s : Schema) (type : ValueType) : List Value → Encoder
  | [] => Encoder.skip
  | v :: vs => do
      writePacked s type vs
      v.write s type

/-- Writes elements each behind its key, the last one first. -/
def writeElements (s : Schema) (tag : Nat) (type : ValueType) : List Value → Encoder
  | [] => Encoder.skip
  | v :: vs => do
      writeElements s tag type vs
      v.write s type
      Encoder.key tag type.wireType

/-- What writes the entries of a map, under their keys. -/
def entryWriters (s : Schema) (tag : Nat) (key : ScalarType) (value : ValueType)
    : List Entry → List (Scalar × Encoder)
  | [] => []
  | ⟨k, v⟩ :: es =>
      (k, writeEntry tag key k value (v.write s value)) :: entryWriters s tag key value es

end

namespace Schema

/-- Writes a message to the front of a buffer and gives its size and the buffer. -/
def encodeTo (s : Schema) (t : MessageType) (m : Message) (buffer : List UInt8)
    : Except EncodeError Nat × List UInt8 :=
  fillBuffer (m.size s t) (m.write s t) buffer

/-- The bytes of a message. -/
def encode (s : Schema) (t : MessageType) (m : Message) : Except EncodeError (List UInt8) :=
  match s.encodeTo t m (List.replicate (m.size s t) 0) with
  | (.ok _, bytes) => .ok bytes
  | (.error e, _) => .error e

end Schema

end Protobuf
