import Protobuf.Proofs.Wire.Encoder
import Protobuf.Proofs.Wire.Zigzag

/-! Every scalar is read back from its bytes, bit for bit, whatever stands behind them. -/

namespace Protobuf

/-- The scalar is a value of the type; a text or byte string stays within the capacity. -/
def Scalar.hasType : ScalarType → Scalar → Bool
  | .int32, .int32 _ | .sint32, .int32 _ | .sfixed32, .int32 _ | .enumeration _, .int32 _ => true
  | .int64, .int64 _ | .sint64, .int64 _ | .sfixed64, .int64 _ => true
  | .uint32, .uint32 _ | .fixed32, .uint32 _ => true
  | .uint64, .uint64 _ | .fixed64, .uint64 _ => true
  | .bool, .bool _ | .float, .float _ | .double, .double _ => true
  | .string capacity, .string v => withinCapacity capacity (Text.utf8 v).length
  | .bytes capacity, .bytes v => withinCapacity capacity v.length
  | _, _ => false

namespace Wire

-----------------------------------------------------------------------------------------
-- Decoders that read given bytes
-----------------------------------------------------------------------------------------

namespace Decoder

/-- The decoder reads the bytes as the value and leaves what stands behind them. -/
def Reads {α : Type} (d : Decoder α) (bytes : List UInt8) (value : α) : Prop :=
  ∀ rest, d (bytes ++ rest) = .ok value rest

theorem Reads.whole {α : Type} {d : Decoder α} {bytes : List UInt8} {value : α}
    (h : d.Reads bytes value)
    : d bytes = .ok value [] := by
  have read := h []
  rwa [List.append_nil] at read

theorem reads_pure {α : Type} (value : α)
    : Reads (pure value) [] value :=
  fun _ => rfl

theorem Reads.bind {α β : Type} {d : Decoder α} {f : α → Decoder β} {first second : List UInt8}
    {a : α} {b : β} (hd : d.Reads first a) (hf : (f a).Reads second b)
    : Reads (d >>= f) (first ++ second) b := by
  intro rest
  simp only [Bind.bind, EStateM.bind, List.append_assoc, hd (second ++ rest), hf rest]

theorem Reads.map {α β : Type} {d : Decoder α} {bytes : List UInt8} {a : α}
    (h : d.Reads bytes a) (f : α → β)
    : Reads (do return f (← d)) bytes (f a) := by
  rw [← bytes.append_nil]
  exact h.bind (reads_pure (f a))

theorem reads_varint (v : UInt64)
    : Reads varint (Wire.varint v) v := by
  intro rest
  simp only [varint, ofParser, readVarint_varint]

theorem reads_slice (bytes : List UInt8)
    : Reads (slice bytes.length) bytes bytes := by
  intro rest
  rw [slice, if_neg (by simp only [List.length_append]; omega), List.take_left, List.drop_left]

/-- A number is found again from its bytes, by induction on their number. -/
theorem littleEndian_toLittleEndian {width n : Nat} (h : n < 256 ^ width)
    : littleEndian (toLittleEndian width n) = n := by
  induction width generalizing n with
  | zero =>
      simp only [Nat.pow_zero, Nat.lt_one_iff] at h
      rw [h, toLittleEndian, littleEndian]
  | succ width ih =>
      have higher : n / 256 < 256 ^ width := by
        rw [Nat.div_lt_iff_lt_mul (by decide), ← Nat.pow_succ]
        exact h
      rw [toLittleEndian, littleEndian, ih higher, UInt8.toNat_ofNat']
      omega

theorem reads_fixed32 (v : UInt32)
    : Reads fixed32 (toLittleEndian 4 v.toNat) v := by
  have bytes := (reads_slice (toLittleEndian 4 v.toNat)).map
    fun bytes => UInt32.ofNat (littleEndian bytes)
  rw [length_toLittleEndian, littleEndian_toLittleEndian v.toNat_lt, UInt32.ofNat_toNat] at bytes
  exact bytes

theorem reads_fixed64 (v : UInt64)
    : Reads fixed64 (toLittleEndian 8 v.toNat) v := by
  have bytes := (reads_slice (toLittleEndian 8 v.toNat)).map
    fun bytes => UInt64.ofNat (littleEndian bytes)
  rw [length_toLittleEndian, littleEndian_toLittleEndian v.toNat_lt, UInt64.ofNat_toNat] at bytes
  exact bytes

/-- A payload is read from behind its length if the length is a positive 64-bit number. -/
theorem reads_lengthDelimited {payload : List UInt8} (h : payload.length < 2 ^ 63)
    : Reads lengthDelimited (delimit payload) payload := by
  have length : (UInt64.ofNat payload.length).toNat = payload.length := by
    rw [UInt64.toNat_ofNat']
    omega
  refine (reads_varint _).bind ?_
  rw [length, if_pos h]
  exact reads_slice payload

theorem reads_text {v : String} (h : (Text.utf8 v).length < 2 ^ 63)
    : Reads text (delimit (Text.utf8 v)) v := by
  rw [← (delimit _).append_nil]
  refine (reads_lengthDelimited h).bind ?_
  rw [Text.ofUtf8?_utf8]
  exact reads_pure v

/-- No record begins where nothing is left. -/
theorem key_nil
    : key [] = .error .unexpectedEof [] := by
  simp only [key, Bind.bind, EStateM.bind, varint, ofParser, readVarint_nil]

/-- A legal key is read as its field number and wire type. -/
theorem reads_key {tag : Nat} {wire : WireType} (positive : 0 < tag) (legal : tag ≤ maxTag)
    (h : wire ≠ .endGroup)
    : Reads key (keyBytes tag wire) (tag, wire) := by
  have code : wire.code < 8 := by cases wire <;> decide
  have number : (keyCode tag wire).toNat = tag * 8 + wire.code := by
    rw [keyCode, UInt64.toNat_ofNat']
    unfold maxTag at legal
    omega
  have low : (tag * 8 + wire.code) % 8 = wire.code := by omega
  have high : (tag * 8 + wire.code) / 8 = tag := by omega
  have illegal : ¬(tag = 0 ∨ maxTag < tag) := by omega
  rw [← (keyBytes tag wire).append_nil]
  refine (reads_varint _).bind ?_
  simp only [splitKey, number, low, high, WireType.ofCode?_code, if_neg illegal, if_neg h]
  exact reads_pure _

end Decoder

-----------------------------------------------------------------------------------------
-- Scalars
-----------------------------------------------------------------------------------------

theorem toInt32_toInt64 (v : Int32)
    : v.toInt64.toUInt64.toUInt32.toInt32 = v := by
  apply Int32.toBitVec_inj.mp
  simp only [UInt32.toBitVec_toInt32, UInt64.toBitVec_toUInt32, Int64.toBitVec_toUInt64,
    Int32.toBitVec_toInt64]
  ext i h
  rw [BitVec.getElem_setWidth, BitVec.getLsbD_signExtend]
  simp [h, Nat.lt_trans h (by decide : 32 < 64), BitVec.getLsbD_eq_getElem]

/-- The size that is computed for a scalar is that of what is written for it, by cases on its type.
-/
theorem scalarSize_eq (type : ScalarType) (v : Scalar)
    : scalarSize type v = (payload type v).size := by
  unfold scalarSize payload
  split
  case h_7 v => exact zigzagSize_toUInt64 v
  case h_8 v => cases v <;> rfl
  all_goals rfl

/-- A scalar is read back from its bytes, by cases on its type. -/
theorem reads_readScalar {type : ScalarType} {v : Scalar} (typed : v.hasType type)
    (small : (payload type v).encoding.length < 2 ^ 63)
    : (readScalar type).Reads (payload type v).encoding v := by
  have varint (type : ScalarType) (n : UInt64) := (Decoder.reads_varint n).map (ofVarint type)
  have fixed32 (type : ScalarType) (n : UInt32) := (Decoder.reads_fixed32 n).map (ofFixed32 type)
  have fixed64 (type : ScalarType) (n : UInt64) := (Decoder.reads_fixed64 n).map (ofFixed64 type)
  cases type <;> cases v <;> simp only [Scalar.hasType, Bool.false_eq_true] at typed
  case int32.int32 v =>
    have read := varint .int32 v.toInt64.toUInt64
    rw [ofVarint, toInt32_toInt64] at read
    exact read
  case enumeration.int32 type v =>
    have read := varint (.enumeration type) v.toInt64.toUInt64
    rw [ofVarint, toInt32_toInt64] at read
    exact read
  case int64.int64 v =>
    have read := varint .int64 v.toUInt64
    rw [ofVarint, Int64.toInt64_toUInt64] at read
    exact read
  case uint32.uint32 v =>
    have read := varint .uint32 v.toUInt64
    rw [ofVarint, UInt32.toUInt32_toUInt64] at read
    exact read
  case uint64.uint64 v => exact varint .uint64 v
  case sint32.int32 v =>
    have read := varint .sint32 (zigzag32 v).toUInt64
    rw [ofVarint, UInt32.toUInt32_toUInt64, unzigzag32_zigzag32] at read
    exact read
  case sint64.int64 v =>
    have read := varint .sint64 (zigzag64 v)
    rw [ofVarint, unzigzag64_zigzag64] at read
    exact read
  case bool.bool v =>
    have read := varint .bool (if v then 1 else 0)
    cases v <;> exact read
  case fixed32.uint32 v => exact fixed32 .fixed32 v
  case sfixed32.int32 v =>
    have read := fixed32 .sfixed32 v.toUInt32
    rw [ofFixed32, Int32.toInt32_toUInt32] at read
    exact read
  case float.float bits => exact fixed32 .float bits
  case fixed64.uint64 v => exact fixed64 .fixed64 v
  case sfixed64.int64 v =>
    have read := fixed64 .sfixed64 v.toUInt64
    rw [ofFixed64, Int64.toInt64_toUInt64] at read
    exact read
  case double.double bits => exact fixed64 .double bits
  case string.string capacity v =>
    have fits : (Text.utf8 v).length < 2 ^ 63 := by
      simp only [payload, Payload.encoding, length_delimit] at small
      omega
    simp only [payload, Payload.encoding]
    rw [← (delimit _).append_nil]
    refine (Decoder.reads_text fits).bind ?_
    rw [if_pos typed]
    exact Decoder.reads_pure _
  case bytes.bytes capacity v =>
    have fits : v.length < 2 ^ 63 := by
      simp only [payload, Payload.encoding, length_delimit] at small
      omega
    simp only [payload, Payload.encoding]
    rw [← (delimit _).append_nil]
    refine (Decoder.reads_lengthDelimited fits).bind ?_
    rw [if_pos typed]
    exact Decoder.reads_pure _

end Wire

end Protobuf
