import Protobuf.Wire.Type
import Protobuf.Wire.Varint

/-! Writing a message from its end towards its start, so that the length of a payload is known
when its prefix is written.  Writes go in front of what is there and never past the free space.
-/

namespace Protobuf.Wire

/-- A region that fills from its end: the bytes still free in front, and the bytes written. -/
structure Writer where
  free : Nat
  bytes : List UInt8
deriving DecidableEq, Repr

/-- A computation that writes in front of the bytes that are there. -/
abbrev Encoder := EStateM EncodeError Writer Unit

/-- An empty region of the given size. -/
def Writer.ofCapacity (capacity : Nat) : Writer :=
  ⟨capacity, []⟩

/-- The `width` lowest bytes of a number, least byte first. -/
def toLittleEndian : Nat → Nat → List UInt8
  | 0, _ => []
  | width + 1, n => UInt8.ofNat (n % 256) :: toLittleEndian width (n / 256)

namespace Encoder

/-- Writes bytes in front, if there is room for all of them. -/
def put (bytes : List UInt8) : Encoder := fun w =>
  if w.free < bytes.length then .error (.insufficientSpace bytes.length w.free) w
  else .ok () ⟨w.free - bytes.length, bytes ++ w.bytes⟩

/-- Writes nothing. -/
def skip : Encoder :=
  pure ()

/-- Writes a 32-bit number, least byte first. -/
def fixed32 (v : UInt32) : Encoder :=
  put (toLittleEndian 4 v.toNat)

/-- Writes a 64-bit number, least byte first. -/
def fixed64 (v : UInt64) : Encoder :=
  put (toLittleEndian 8 v.toNat)

/-- Writes a varint. -/
def varint (v : UInt64) : Encoder :=
  put (Wire.varint v)

/-- Writes the key of a field. -/
def key (tag : Nat) (wire : WireType) : Encoder :=
  varint (keyCode tag wire)

/-- Writes a payload and then, in front of it, its length. -/
def lengthDelimited (payload : Encoder) : Encoder := do
  let before ← get
  payload
  let after ← get
  varint (UInt64.ofNat (before.free - after.free))

/-- Takes the last of several steps first. -/
def fromLast : List Encoder → Encoder
  | [] => skip
  | step :: steps => do
      fromLast steps
      step

end Encoder

/-- Fills the front of a buffer by a message that announces `size` bytes; bytes behind them stay
as they are.  Gives the number of bytes and the buffer, which keeps what was written before an
error.
-/
def fillBuffer (size : Nat) (encode : Encoder) (buffer : List UInt8)
    : Except EncodeError Nat × List UInt8 :=
  if buffer.length < size then (.error (.insufficientSpace size buffer.length), buffer)
  else
    let filled (w : Writer) := buffer.take w.free ++ w.bytes ++ buffer.drop size
    match encode (Writer.ofCapacity size) with
    | .error e w => (.error e, filled w)
    | .ok () w =>
        (if w.free = 0 then .ok size else .error (.sizeMismatch size w.bytes.length), filled w)

end Protobuf.Wire
