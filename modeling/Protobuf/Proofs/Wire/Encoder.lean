import Protobuf.Proofs.Wire.Varint
import Protobuf.Wire.Payload

/-! What an encoder writes, read forwards.  Although a message is written from its end, every
encoder puts one fixed string of bytes in front of what is there.
-/

namespace Protobuf.Wire

/-- A payload behind its length. -/
def delimit (payload : List UInt8) : List UInt8 :=
  varint (UInt64.ofNat payload.length) ++ payload

def keyBytes (tag : Nat) (wire : WireType) : List UInt8 :=
  varint (keyCode tag wire)

def Payload.encoding : Payload → List UInt8
  | .varint v => Wire.varint v
  | .fixed32 v => toLittleEndian 4 v.toNat
  | .fixed64 v => toLittleEndian 8 v.toNat
  | .delimited bytes => delimit bytes
  | .nothing => []

@[simp]
theorem length_toLittleEndian (width n : Nat)
    : (toLittleEndian width n).length = width := by
  induction width generalizing n with
  | zero => rfl
  | succ width ih => simp [toLittleEndian, ih]

theorem length_delimit (payload : List UInt8)
    : (delimit payload).length
        = varintSize (UInt64.ofNat payload.length) + payload.length := by
  simp [delimit, length_varint]

/-- The size of a payload is the number of its bytes. -/
theorem Payload.length_encoding (p : Payload)
    : p.encoding.length = p.size := by
  cases p with
  | varint v => exact length_varint v
  | fixed32 v => exact length_toLittleEndian 4 _
  | fixed64 v => exact length_toLittleEndian 8 _
  | delimited bytes => exact length_delimit bytes
  | nothing => rfl

namespace Encoder

/-- The encoder puts the bytes in front of what is there if there is room for all of them. -/
def Writes (e : Encoder) (bytes : List UInt8) : Prop :=
  ∀ w : Writer, bytes.length ≤ w.free
    → e w = .ok () ⟨w.free - bytes.length, bytes ++ w.bytes⟩

theorem writes_skip
    : Writes skip [] :=
  fun _ _ => rfl

theorem writes_put (bytes : List UInt8)
    : Writes (put bytes) bytes := by
  intro w room
  rw [put, if_neg (by omega)]

theorem writes_varint (v : UInt64)
    : Writes (varint v) (Wire.varint v) :=
  writes_put _

theorem writes_key (tag : Nat) (wire : WireType)
    : Writes (key tag wire) (keyBytes tag wire) :=
  writes_put _

/-- What is written later stands in front. -/
theorem Writes.andThen {d e : Encoder} {first second : List UInt8}
    (hd : d.Writes first) (he : e.Writes second)
    : Writes (do d; e) (second ++ first) := by
  intro w room
  simp only [List.length_append] at room
  have after := he ⟨w.free - first.length, first ++ w.bytes⟩ (by simp only; omega)
  simp only [Bind.bind, EStateM.bind, hd w (by omega), after, List.length_append,
    List.append_assoc]
  congr 2
  omega

/-- A payload is written behind its length, which is how far the free space shrank. -/
theorem Writes.lengthDelimited {e : Encoder} {payload : List UInt8} (h : e.Writes payload)
    : Writes (Encoder.lengthDelimited e) (delimit payload) := by
  intro w room
  have fits : payload.length ≤ w.free := by
    rw [length_delimit] at room
    omega
  have whole := (h.andThen (writes_varint (UInt64.ofNat payload.length))) w room
  simp only [Bind.bind, EStateM.bind, h w fits] at whole
  have written : w.free - (w.free - payload.length) = payload.length := by omega
  have state (w : Writer) : (EStateM.get : EStateM EncodeError Writer Writer) w = .ok w w := rfl
  simp only [Encoder.lengthDelimited, Bind.bind, EStateM.bind, get, getThe, MonadStateOf.get,
    state, h w fits, written]
  exact whole

end Encoder

theorem Payload.writes_write (p : Payload)
    : p.write.Writes p.encoding := by
  cases p with
  | varint v => exact Encoder.writes_varint v
  | fixed32 v => exact Encoder.writes_put _
  | fixed64 v => exact Encoder.writes_put _
  | delimited bytes => exact (Encoder.writes_put bytes).lengthDelimited
  | nothing => exact Encoder.writes_skip

/-- An encoder that writes what is announced fills the front of a buffer that is large enough, and
leaves any other buffer alone.
-/
theorem fillBuffer_of_writes {e : Encoder} {bytes : List UInt8} (h : e.Writes bytes)
    (buffer : List UInt8)
    : fillBuffer bytes.length e buffer
        = if bytes.length ≤ buffer.length then (.ok bytes.length, bytes ++ buffer.drop bytes.length)
          else (.error (.insufficientSpace bytes.length buffer.length), buffer) := by
  unfold fillBuffer
  by_cases room : bytes.length ≤ buffer.length
  · rw [if_neg (by omega), if_pos room, h (Writer.ofCapacity bytes.length) (Nat.le_refl _)]
    simp [Writer.ofCapacity]
  · rw [if_pos (by omega), if_neg room]

end Protobuf.Wire
