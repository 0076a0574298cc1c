import Protobuf.Indexed
import Protobuf.Wire.Payload

/-! Reading an encoded message by index.  A cursor keeps the whole input and an offset into it, and
how many more length-delimited records may nest.
-/

namespace Protobuf.Wire

-----------------------------------------------------------------------------------------
-- Passing over a record
-----------------------------------------------------------------------------------------

/-- The offset behind a value of wire type `wire` and the group depth there. -/
def skipValue (data : List UInt8) (wire depth i : Nat) : Except DecodeError (Nat × Nat) :=
  match wire with
  | 0 => (decodeVarint data i).map fun (_, n) => (depth, i + n)
  | 1 => .ok (depth, i + 8)
  | 2 =>
      match decodeVarint data i with
      | .error e => .error e
      | .ok (length, n) =>
          if length.toNat < 2 ^ 63 then .ok (depth, i + n + length.toNat)
          else .error .invalidLength
  | 3 => .ok (depth + 1, i)
  | 4 => if depth = 0 then .error .unexpectedEndOfGroup else .ok (depth - 1, i)
  | 5 => .ok (depth, i + 4)
  | wire => .error (.illegalWireType wire)

theorem bounds_of_decodeVarint {data : List UInt8} {i n : Nat} {v : UInt64}
    (h : decodeVarint data i = .ok (v, n))
    : 0 < n ∧ i + n ≤ data.length := by
  unfold decodeVarint at h
  cases read : decodeGroups data i 0 0 with
  | error e => simp [read] at h
  | ok found =>
      obtain ⟨n, j⟩ := found
      obtain ⟨behind, inside⟩ := bounds_of_decodeGroups read
      rw [read] at h
      cases h
      omega

/-- A value does not end in front of its start, by cases on the wire type. -/
theorem le_of_skipValue {data : List UInt8} {wire depth depth' i j : Nat}
    (h : skipValue data wire depth i = .ok (depth', j))
    : i ≤ j := by
  unfold skipValue at h
  split at h
  · cases read : decodeVarint data i with
    | error e => simp [read, Except.map] at h
    | ok found =>
        simp only [read, Except.map, Except.ok.injEq, Prod.mk.injEq] at h
        omega
  · cases h
    omega
  · split at h
    · cases h
    · split at h <;> cases h
      omega
  · cases h
    exact Nat.le_refl _
  · split at h <;> cases h
    exact Nat.le_refl _
  · cases h
    omega
  · cases h

/-- The offset behind the record at an offset, where `depth` groups are already open. -/
def skipFrom (data : List UInt8) (depth i : Nat) : Except DecodeError Nat :=
  if data.length ≤ i then .error .unexpectedEof
  else match _hk : decodeVarint data i with
    | .error e => .error e
    | .ok (key, n) =>
        match _hv : skipValue data (key.toNat % 8) depth (i + n) with
        | .error e => .error e
        | .ok (depth, j) =>
            if data.length < j then .error .unexpectedEof
            else if depth = 0 then .ok j
            else skipFrom data depth j
termination_by data.length - i
decreasing_by
  have key := bounds_of_decodeVarint _hk
  have value := le_of_skipValue _hv
  omega

/-- The length of the record at the front, its key included. -/
def skip (data : List UInt8) : Except DecodeError Nat :=
  skipFrom data 0 0

-----------------------------------------------------------------------------------------
-- Decoders
-----------------------------------------------------------------------------------------

/-- A decoder that reads by index. -/
abbrev IndexedDecoder := Indexed DecodeError

namespace IndexedDecoder

open Indexed

/-- A varint. -/
def varint : IndexedDecoder UInt64 := fun data i =>
  match decodeVarint data i with
  | .ok (v, n) => .ok v (i + n)
  | .error e => .error (.failed e) i

/-- The next `n` bytes; too few of them are an error and no access. -/
def fixed (n : Nat) : IndexedDecoder (List UInt8) := fun data i =>
  match between? data i (i + n) with
  | some bytes => .ok bytes (i + n)
  | none => .error (.failed .unexpectedEof) i

/-- A 32-bit number, least byte first. -/
def fixed32 : IndexedDecoder UInt32 := do
  let bytes ← fixed 4
  return UInt32.ofNat (Decoder.littleEndian bytes)

/-- A 64-bit number, least byte first. -/
def fixed64 : IndexedDecoder UInt64 := do
  let bytes ← fixed 8
  return UInt64.ofNat (Decoder.littleEndian bytes)

/-- The next `n` bytes, once it is clear that there are as many. -/
def take (n : Nat) : IndexedDecoder (List UInt8) := fun data i =>
  if data.length < i + n then .error (.failed .unexpectedEof) i
  else match between? data i (i + n) with
    | some bytes => .ok bytes (i + n)
    | none => .error .outOfRange i

/-- The next `n` bytes; a length that takes the offset past 64 bits is no length at all. -/
def slice (n : Nat) : IndexedDecoder (List UInt8) := fun data i =>
  if 2 ^ 64 ≤ i + n then .error (.failed .invalidLength) i else take n data i

/-- A length and that many bytes.  No input is so long that a legal length takes the offset past 64
bits.
-/
def lengthDelimited : IndexedDecoder (List UInt8) := do
  let length ← varint
  if length.toNat < 2 ^ 63 then take length.toNat else fail .invalidLength

/-- A length and that many bytes of UTF-8. -/
def text : IndexedDecoder String := do
  let bytes ← lengthDelimited
  match Text.ofUtf8? bytes with
  | some text => return text
  | none => fail .invalidUtf8

/-- A key: a field number and a wire type. -/
def key : IndexedDecoder (Nat × WireType) := do
  let code ← varint
  match Decoder.splitKey code.toNat with
  | .ok pair => return pair
  | .error e => fail e

/-- A scalar of a type. -/
def scalar (type : ScalarType) : IndexedDecoder Scalar :=
  match type with
  | .string capacity => do
      let text ← text
      if withinCapacity capacity (Text.utf8 text).length then return .string text
      else fail .capacityExceeded
  | .bytes capacity => do
      let bytes ← lengthDelimited
      if withinCapacity capacity bytes.length then return .bytes bytes
      else fail .capacityExceeded
  | type =>
      match type.wireType with
      | .thirtyTwoBit => return ofFixed32 type (← fixed32)
      | .sixtyFourBit => return ofFixed64 type (← fixed64)
      | _ => return ofVarint type (← varint)

/-- Rewinds to the key at `start` and consumes the record that begins there. -/
def recordAt (start : Nat) : IndexedDecoder (List UInt8) := do
  let record ← sliceFrom start
  match skip record with
  | .error e => fail e
  | .ok n =>
      moveTo (start + n)
      Indexed.slice start (start + n)

end IndexedDecoder

-----------------------------------------------------------------------------------------
-- Cursors
-----------------------------------------------------------------------------------------

/-- An input, the offset of the next byte, and how many more length-delimited records may nest. -/
structure Cursor where
  data : List UInt8
  position : Nat
  budget : Nat

namespace Cursor

/-- A cursor at the start of the bytes with the full nesting budget. -/
def ofBytes (bytes : List UInt8) : Cursor :=
  ⟨bytes, 0, recursionLimit⟩

/-- Nothing is left. -/
def atEnd (c : Cursor) : Bool :=
  decide (c.data.length ≤ c.position)

/-- Decodes where the cursor is, and moves it on. -/
def run {α : Type} (read : IndexedDecoder α) (c : Cursor)
    : EStateM.Result (Interruption DecodeError) Cursor α :=
  match read c.data c.position with
  | .ok v i => .ok v { c with position := i }
  | .error why i => .error why { c with position := i }

/-- The bytes that are left. -/
def remaining (c : Cursor) : EStateM.Result (Interruption DecodeError) Cursor (List UInt8) :=
  c.run (Indexed.sliceFrom c.position)

/-- Reads a length-delimited record and opens a cursor over it with one less nesting budget. -/
def nested (c : Cursor) : EStateM.Result (Interruption DecodeError) Cursor Cursor :=
  match c.budget with
  | 0 => .error (.failed .recursionLimitExceeded) c
  | budget + 1 =>
      match c.run .lengthDelimited with
      | .ok payload c => .ok ⟨payload, 0, budget⟩ c
      | .error why c => .error why c

end Cursor

end Protobuf.Wire
