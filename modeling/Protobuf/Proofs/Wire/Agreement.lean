import Mathlib.Order.Bounds.Defs
import Protobuf.Proofs.Wire.Payload

/-! Sizes, written bytes and readers agree on every number and on every scalar, wherever the bytes
stand: behind other bytes, in front of others, or in the middle of a buffer.
-/

namespace Protobuf.Wire

/-- The size of a varint is the least number of groups of seven bits that hold the number. -/
theorem varintSize_isLeast (v : UInt64)
    : IsLeast {k | 1 ≤ k ∧ v.toNat < 2 ^ (7 * k)} (varintSize v) := by
  rw [varintSize_eq]
  rcases Nat.eq_zero_or_pos v.toNat with zero | positive
  · rw [zero, Nat.log2_zero]
    exact ⟨⟨Nat.le_refl _, Nat.two_pow_pos _⟩, fun k enough => enough.1⟩
  · have bits {k : Nat} : v.toNat < 2 ^ k ↔ v.toNat.log2 < k :=
      (Nat.log2_lt (Nat.ne_of_gt positive)).symm
    refine ⟨⟨Nat.succ_pos _, bits.mpr ?_⟩, fun k enough => ?_⟩
    · omega
    · have short := bits.mp enough.2
      omega

/-- A varint has at most ten bytes. -/
theorem varintSize_le (v : UInt64)
    : varintSize v ≤ 10 :=
  (varintSize_isLeast v).2 ⟨by decide, Nat.lt_trans v.toNat_lt (by decide)⟩

-----------------------------------------------------------------------------------------
-- Varints in the middle of a buffer
-----------------------------------------------------------------------------------------

/-- The buffer with the bytes in place of those that end right before `offset`. -/
def overwrite (buffer bytes : List UInt8) (offset : Nat) : List UInt8 :=
  buffer.take (offset - bytes.length) ++ bytes ++ buffer.drop offset

section Overwrite

variable {buffer bytes : List UInt8} {offset : Nat}

theorem length_take_start (room : bytes.length ≤ offset) (inside : offset ≤ buffer.length)
    : (buffer.take (offset - bytes.length)).length = offset - bytes.length :=
  List.length_take_of_le (by omega)

/-- Overwriting keeps the length of the buffer. -/
theorem length_overwrite (room : bytes.length ≤ offset) (inside : offset ≤ buffer.length)
    : (overwrite buffer bytes offset).length = buffer.length := by
  simp only [overwrite, List.length_append, length_take_start room inside, List.length_drop]
  omega

/-- The bytes stand where they were put. -/
theorem drop_overwrite (room : bytes.length ≤ offset) (inside : offset ≤ buffer.length)
    : (overwrite buffer bytes offset).drop (offset - bytes.length)
      = bytes ++ buffer.drop offset := by
  rw [overwrite, List.append_assoc, List.drop_left' (length_take_start room inside)]

/-- Bytes in front of the place and behind it stay. -/
theorem getElem?_overwrite (room : bytes.length ≤ offset)
    (inside : offset ≤ buffer.length) {i : Nat} (outside : i < offset - bytes.length ∨ offset ≤ i)
    : (overwrite buffer bytes offset)[i]? = buffer[i]? := by
  have start := length_take_start room inside
  rcases outside with front | behind
  · rw [overwrite, List.append_assoc, List.getElem?_append_left (start.symm ▸ front),
      List.getElem?_take_of_lt front]
  · have length : (buffer.take (offset - bytes.length) ++ bytes).length = offset := by
      rw [List.length_append, start]
      omega
    rw [overwrite, List.getElem?_append_right (length.symm ▸ behind), List.getElem?_drop, length]
    congr 1
    omega

/-- The first of the bytes may be put before the others. -/
theorem overwrite_set {i : Nat} (here : i < buffer.length) (b : UInt8) (bytes : List UInt8)
    : overwrite (buffer.set i b) bytes (i + 1 + bytes.length)
        = overwrite buffer (b :: bytes) (i + (b :: bytes).length) := by
  have there : i < (buffer.set i b).length := by rwa [List.length_set]
  have front : (buffer.set i b).take (i + 1) = buffer.take i ++ [b] := by
    rw [← List.take_append_getElem there, List.take_set_of_le (Nat.le_refl i),
      List.getElem_set_self]
  have behind : (buffer.set i b).drop (i + 1 + bytes.length)
      = buffer.drop (i + (b :: bytes).length) := by
    rw [List.drop_set_of_lt (by omega), List.length_cons]
    congr 1
    omega
  rw [overwrite, overwrite, Nat.add_sub_cancel, Nat.add_sub_cancel, front, behind,
    List.append_assoc (buffer.take i), List.singleton_append]

theorem overwrite_single {i : Nat} (here : i < buffer.length) (b : UInt8)
    : overwrite buffer [b] (i + [b].length) = buffer.set i b := by
  rw [← overwrite_set here b [], overwrite, List.length_nil, List.append_nil, Nat.add_zero,
    Nat.sub_zero, List.take_append_drop]

end Overwrite

/-- The loop puts the groups of a number in place of as many bytes from an index on, by induction on
the number.
-/
theorem placeGroups_eq {buffer : List UInt8} {i : Nat} {v : UInt64}
    (inside : i + (groups v.toNat).length ≤ buffer.length)
    : placeGroups buffer i v
        = some (overwrite buffer (groups v.toNat) (i + (groups v.toNat).length)) := by
  have groups_of_le {v : UInt64} (more : 128 ≤ v)
      : groups v.toNat = (v.toUInt8 ||| 128) :: groups (v >>> 7).toNat := by
    have large : ¬v.toNat < 128 := Nat.not_lt.mpr (UInt64.le_iff_toNat_le.mp more)
    rw [groups, if_neg large, toNat_shiftRight_seven, toUInt8_or_continuation]
  fun_induction placeGroups buffer i v with
  | case1 buffer i v more placed put ih =>
      rw [groups_of_le more] at inside ⊢
      have here : i < buffer.length := by
        rw [List.length_cons] at inside
        omega
      rw [putByte, if_pos here] at put
      cases put
      rw [ih (by rw [List.length_set]; rw [List.length_cons] at inside; omega),
        overwrite_set here]
  | case2 buffer i v more put =>
      have here : i < buffer.length := by
        rw [groups_of_le more, List.length_cons] at inside
        omega
      rw [putByte, if_pos here] at put
      cases put
  | case3 buffer i v small =>
      have last : groups v.toNat = [v.toUInt8] := by
        rw [groups, if_pos (toNat_lt_of_not_le small), UInt8.ofNat_uInt64ToNat]
      rw [last] at inside ⊢
      have here : i < buffer.length := inside
      rw [putByte, if_pos here, overwrite_single here]

/-- The loop in place overwrites as many bytes as the varint has. -/
theorem placeVarint_eq {buffer : List UInt8} {offset : Nat} {v : UInt64}
    (room : varintSize v ≤ offset) (inside : offset ≤ buffer.length)
    : placeVarint buffer offset v
        = some (offset - varintSize v, overwrite buffer (varint v) offset) := by
  have size := length_varint v
  rw [varint_eq] at size ⊢
  have behind : offset - varintSize v + (groups v.toNat).length = offset := by omega
  rw [placeVarint, if_pos room]
  simp only [placeGroups_eq (behind.symm ▸ inside : _ + _ ≤ _), behind, Option.map_some]

-----------------------------------------------------------------------------------------
-- Scalars
-----------------------------------------------------------------------------------------

/-- A payload fills a region of its size. -/
theorem Payload.write_fills (p : Payload)
    : p.write (Writer.ofCapacity p.size) = .ok () ⟨0, p.encoding⟩ := by
  have written := p.writes_write (Writer.ofCapacity p.size) (Nat.le_of_eq p.length_encoding)
  rw [written, p.length_encoding]
  simp [Writer.ofCapacity]

theorem wireType_of_delimited {type : ScalarType} {v : Scalar} {bytes : List UInt8}
    (h : payload type v = .delimited bytes)
    : type.wireType = .lengthDelimited := by
  unfold payload at h
  split at h <;> cases h <;> rfl

/-- Only texts and byte strings take more than a few bytes. -/
theorem size_payload_lt {type : ScalarType} (h : type.wireType ≠ .lengthDelimited) (v : Scalar)
    : (payload type v).size < 2 ^ 63 := by
  cases written : payload type v with
  | varint n => exact Nat.lt_of_le_of_lt (varintSize_le n) (by decide)
  | fixed32 n | fixed64 n | nothing => simp [Payload.size]
  | delimited bytes => exact absurd (wireType_of_delimited written) h

/-- What a scalar's decoder reads is merged. -/
theorem mergeScalar_of_reads {type : ScalarType} {bytes : List UInt8} {v : Scalar}
    (h : (readScalar type).Reads bytes v) (current : Scalar) (rest : List UInt8)
    : mergeScalar type current (bytes ++ rest) = ⟨v, none, rest⟩ := by
  simp only [mergeScalar, h rest]

/-- A writer puts the bytes of a number where the loop places them in the buffer that it fills. -/
theorem Encoder.varint_of_placeVarint (free bytes : List UInt8) (v : UInt64)
    (room : varintSize v ≤ free.length)
    : ∃ start written, Encoder.varint v ⟨free.length, bytes⟩ = .ok () ⟨start, written⟩
        ∧ placeVarint (free ++ bytes) free.length v = some (start, free.take start ++ written) := by
  have size := length_varint v
  refine ⟨_, _, Encoder.writes_varint v ⟨free.length, bytes⟩ (by rw [size]; exact room), ?_⟩
  rw [placeVarint_eq room (by rw [List.length_append]; omega), overwrite, List.drop_left, size,
    List.take_append_of_le_length (Nat.sub_le _ _), List.append_assoc]

/-- A varint takes the least number of groups that holds its number, is read back behind any bytes
and in front of any, and is placed in a buffer without a change to the other bytes.  A zigzag number
is found again and has the size that is computed from the bits.  A scalar fills a region of its size
and is merged from there bit for bit and up to its last byte, a text or byte string if its length is
a positive 64-bit number.
-/
theorem varint_routines_agree
    : (∀ (v : UInt64) (front behind : List UInt8),
        appendVarint front v = front ++ varint v
        ∧ (appendVarint front v).length = front.length + varintSize v
        ∧ IsLeast {k | 1 ≤ k ∧ v.toNat < 2 ^ (7 * k)} (varintSize v)
        ∧ decodeVarint (appendVarint front v ++ behind) front.length = .ok (v, varintSize v)
        ∧ readVarint ((appendVarint front v ++ behind).drop front.length) = .ok (v, behind))
      ∧ (∀ (v : UInt64) (buffer : List UInt8) (offset : Nat),
        varintSize v ≤ offset → offset ≤ buffer.length
        → ∃ filled, placeVarint buffer offset v = some (offset - varintSize v, filled)
          ∧ filled.length = buffer.length
          ∧ (filled.drop (offset - varintSize v)).take (varintSize v) = varint v
          ∧ ∀ i, i < offset - varintSize v ∨ offset ≤ i → filled[i]? = buffer[i]?)
      ∧ (∀ (v : UInt64) (free bytes : List UInt8), varintSize v ≤ free.length
        → ∃ start written, Encoder.varint v ⟨free.length, bytes⟩ = .ok () ⟨start, written⟩
          ∧ placeVarint (free ++ bytes) free.length v = some (start, free.take start ++ written))
      ∧ (∀ v : Int32, unzigzag32 (zigzag32 v) = v)
      ∧ (∀ v : Int64, unzigzag64 (zigzag64 v) = v ∧ zigzagSize v.toUInt64 = varintSize (zigzag64 v))
      ∧ ∀ (type : ScalarType) (v current : Scalar) (rest : List UInt8),
        v.hasType type
        → (type.wireType = .lengthDelimited → scalarSize type v < 2 ^ 63)
        → ∃ bytes, bytes.length = scalarSize type v
          ∧ (payload type v).write (Writer.ofCapacity (scalarSize type v)) = .ok () ⟨0, bytes⟩
          ∧ mergeScalar type current (bytes ++ rest) = ⟨v, none, rest⟩ := by
  refine ⟨fun v front behind => ?_, fun v buffer offset room inside => ?_,
    fun v free bytes => Encoder.varint_of_placeVarint free bytes v, unzigzag32_zigzag32,
    fun v => ⟨unzigzag64_zigzag64 v, zigzagSize_toUInt64 v⟩,
      fun type v current rest typed small => ?_⟩
  · have appended : appendVarint front v = front ++ varint v := by
      rw [appendVarint_eq, varint_eq]
    refine ⟨appended, ?_, varintSize_isLeast v, ?_, ?_⟩
    · rw [appended, List.length_append, length_varint]
    · rw [appended, List.append_assoc, decodeVarint_varint]
    · rw [appended, List.append_assoc, List.drop_left, readVarint_varint]
  · have length := length_varint v
    have room' : (varint v).length ≤ offset := length.symm ▸ room
    refine ⟨_, placeVarint_eq room inside, length_overwrite room' inside, ?_, fun i outside => ?_⟩
    · rw [← length, drop_overwrite room' inside, List.take_left]
    · rw [← length] at outside
      exact getElem?_overwrite room' inside outside
  -- Only texts and byte strings can be too long for the length in front of them.
  · have fits : (payload type v).encoding.length < 2 ^ 63 := by
      rw [Payload.length_encoding, ← scalarSize_eq]
      by_cases delimited : type.wireType = .lengthDelimited
      · exact small delimited
      · exact scalarSize_eq type v ▸ size_payload_lt delimited v
    rw [scalarSize_eq]
    exact ⟨_, (payload type v).length_encoding, (payload type v).write_fills,
      mergeScalar_of_reads (reads_readScalar typed fits) current rest⟩

/-- Two bytes in the middle of four and behind one, and a negative number in one byte. -/
theorem varint_routines_agree_inside
    : (∃ filled, placeVarint [1, 2, 3, 4] 3 300 = some (1, filled) ∧ filled.length = 4
        ∧ (filled.drop 1).take 2 = varint 300 ∧ filled[0]? = some 1 ∧ filled[3]? = some 4)
      ∧ (∃ start written, Encoder.varint 300 ⟨3, [4]⟩ = .ok () ⟨start, written⟩
        ∧ placeVarint [1, 2, 3, 4] 3 300 = some (start, [1, 2, 3].take start ++ written))
      ∧ ∃ bytes, bytes.length = 1
        ∧ mergeScalar .sint32 (.int32 7) (bytes ++ [9]) = ⟨.int32 (-2), none, [9]⟩ := by
  obtain ⟨-, place, write, -, -, scalars⟩ := varint_routines_agree
  obtain ⟨filled, placed, length, written, others⟩ :=
    place 300 [1, 2, 3, 4] 3 (by decide) (by decide)
  obtain ⟨bytes, size, -, merged⟩ :=
    scalars .sint32 (.int32 (-2)) (.int32 7) [9] rfl (fun delimited => nomatch delimited)
  exact ⟨⟨filled, placed, length, written, others 0 (.inl (by decide)),
    others 3 (.inr (by decide))⟩, write 300 [1, 2, 3] [4] (by decide), bytes, size, merged⟩

end Protobuf.Wire
