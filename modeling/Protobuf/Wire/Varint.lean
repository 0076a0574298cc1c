import Protobuf.Wire.Error

/-! Base-128 numbers, least group first.  Every byte but the last carries the continuation bit, so
a 64-bit number takes one to ten bytes; bits of a tenth byte beyond the 64th are dropped.
-/

namespace Protobuf.Wire

-----------------------------------------------------------------------------------------
-- Writing
-----------------------------------------------------------------------------------------

/-- What is left of a number with more than one group is smaller. -/
theorem toNat_shiftRight_lt {v : UInt64} (more : 128 ≤ v)
    : (v >>> 7).toNat < v.toNat := by
  have large := UInt64.le_iff_toNat_le.mp more
  have shifted : (v >>> 7).toNat = v.toNat / 2 ^ 7 := by
    rw [UInt64.toNat_shiftRight, Nat.shiftRight_eq_div_pow]
    rfl
  rw [shifted]
  exact Nat.div_lt_self (Nat.lt_of_lt_of_le (by decide) large) (by decide)

/-- Appends the varint of a number to the bytes. -/
def appendVarint (bytes : List UInt8) (v : UInt64) : List UInt8 :=
  if 128 ≤ v then appendVarint (bytes ++ [v.toUInt8 ||| 128]) (v >>> 7)
  else bytes ++ [v.toUInt8]
termination_by v.toNat
decreasing_by
  exact toNat_shiftRight_lt ‹_›

/-- The varint of a 64-bit number. -/
def varint (v : UInt64) : List UInt8 :=
  appendVarint [] v

/-- How many bits stand in front of the highest one that is set. -/
def leadingZeros (v : UInt64) : Nat :=
  v.toBitVec.clz.toNat

/-- How many bytes the varint of a number takes. -/
def varintSize (v : UInt64) : Nat :=
  (64 - leadingZeros (v ||| 1) + 6) / 7

/-- The buffer with another byte at an index, which has to be inside. -/
def putByte (buffer : List UInt8) (i : Nat) (b : UInt8) : Option (List UInt8) :=
  if i < buffer.length then some (buffer.set i b) else none

/-- Puts the groups of a number into the buffer one after the other from an index on. -/
def placeGroups (buffer : List UInt8) (i : Nat) (v : UInt64) : Option (List UInt8) :=
  if 128 ≤ v then
    match putByte buffer i (v.toUInt8 ||| 128) with
    | some buffer => placeGroups buffer (i + 1) (v >>> 7)
    | none => none
  else putByte buffer i v.toUInt8
termination_by v.toNat
decreasing_by
  exact toNat_shiftRight_lt ‹_›

/-- Places the varint of `v` in the buffer so that it ends right before `offset`, and returns where
it starts.  There is none if the place is not inside the buffer.
-/
def placeVarint (buffer : List UInt8) (offset : Nat) (v : UInt64) : Option (Nat × List UInt8) :=
  if varintSize v ≤ offset then
    let start := offset - varintSize v
    (placeGroups buffer start v).map fun buffer => (start, buffer)
  else none

-----------------------------------------------------------------------------------------
-- Reading
-----------------------------------------------------------------------------------------

/-- Reads groups from an index on above the bits that were read, and returns the number with the
index behind it.
-/
def decodeGroups (buffer : List UInt8) (i shift : Nat) (v : UInt64)
    : Except DecodeError (UInt64 × Nat) :=
  if 64 ≤ shift then .error .intOverflow
  else match buffer[i]? with
    | none => .error .unexpectedEof
    | some b =>
        let v := v ||| ((b &&& 0x7f).toUInt64 <<< UInt64.ofNat shift)
        if b < 128 then .ok (v, i + 1) else decodeGroups buffer (i + 1) (shift + 7) v
termination_by 64 - shift

/-- Reads the varint at an offset and returns its value with the number of its bytes. -/
def decodeVarint (buffer : List UInt8) (offset : Nat) : Except DecodeError (UInt64 × Nat) :=
  match decodeGroups buffer offset 0 0 with
  | .ok (v, i) => .ok (v, i - offset)
  | .error e => .error e

/-- Reads a varint at the front and returns its value with the bytes behind it. -/
def readVarint (bytes : List UInt8) : Except DecodeError (UInt64 × List UInt8) :=
  match decodeVarint bytes 0 with
  | .ok (v, n) => .ok (v, bytes.drop n)
  | .error e => .error e

@[simp]
theorem readVarint_nil
    : readVarint [] = .error .unexpectedEof := by
  simp [readVarint, decodeVarint, decodeGroups]

/-- The index behind what was read is inside the buffer and behind the start, by induction on the
bits that are left.
-/
theorem bounds_of_decodeGroups {buffer : List UInt8} {i j shift : Nat} {v n : UInt64}
    (h : decodeGroups buffer i shift v = .ok (n, j))
    : i < j ∧ j ≤ buffer.length := by
  fun_induction decodeGroups buffer i shift v with
  | case1 => cases h
  | case2 => cases h
  | case3 i shift v _ b found v' last =>
      obtain ⟨-, rfl⟩ := Prod.mk.inj (Except.ok.inj h)
      exact ⟨Nat.lt_succ_self i, (List.getElem?_eq_some_iff.mp found).1⟩
  | case4 i shift v _ b found v' more ih =>
      obtain ⟨behind, inside⟩ := ih h
      exact ⟨Nat.lt_of_succ_lt behind, inside⟩

theorem length_of_readVarint {bytes rest : List UInt8} {v : UInt64}
    (h : readVarint bytes = .ok (v, rest))
    : rest.length < bytes.length := by
  simp only [readVarint, decodeVarint] at h
  cases read : decodeGroups bytes 0 0 0 with
  | error e =>
      rw [read] at h
      cases h
  | ok found =>
      obtain ⟨n, i⟩ := found
      obtain ⟨behind, inside⟩ := bounds_of_decodeGroups read
      rw [read] at h
      cases h
      rw [List.length_drop]
      omega

end Protobuf.Wire
