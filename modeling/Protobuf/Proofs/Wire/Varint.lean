import Protobuf.Wire.Type
import Protobuf.Wire.Varint

/-! The varint of a number takes the announced number of bytes, and reading it gives the number
back with whatever bytes stand behind it.  Written and read group by group, a number is the one
that its groups spell.
-/

namespace Protobuf.Wire

-----------------------------------------------------------------------------------------
-- Groups
-----------------------------------------------------------------------------------------

/-- The base-128 spelling of a number. -/
def groups (n : Nat) : List UInt8 :=
  if n < 128 then [UInt8.ofNat n]
  else UInt8.ofNat (n % 128 + 128) :: groups (n / 128)

/-- Reads a base-128 number of at most `limit` bytes and returns it with the bytes behind it. -/
def readGroups : Nat → List UInt8 → Except DecodeError (Nat × List UInt8)
  | 0, _ => .error .intOverflow
  | _ + 1, [] => .error .unexpectedEof
  | limit + 1, b :: rest =>
      if b < 128 then .ok (b.toNat, rest)
      else match readGroups limit rest with
        | .ok (high, rest) => .ok (b.toNat - 128 + 128 * high, rest)
        | .error e => .error e

section

variable {v : UInt64} {b : UInt8} {buffer bytes rest : List UInt8} {limit n i shift : Nat}

theorem toNat_shiftRight_seven (v : UInt64)
    : (v >>> 7).toNat = v.toNat / 128 := by
  rw [UInt64.toNat_shiftRight, Nat.shiftRight_eq_div_pow]
  rfl

/-- The lowest seven bits with the continuation bit. -/
theorem toUInt8_or_continuation (v : UInt64)
    : v.toUInt8 ||| 128 = UInt8.ofNat (v.toNat % 128 + 128) := by
  have bits : ∀ b : BitVec 8, b ||| 128#8 = BitVec.ofNat 8 (b.toNat % 128 + 128) := by
    decide +kernel
  have low : v.toUInt8.toNat % 128 = v.toNat % 128 := by
    rw [UInt64.toNat_toUInt8]
    omega
  apply UInt8.toBitVec_inj.mp
  rw [UInt8.toBitVec_or, UInt8.toBitVec_ofNat', ← low]
  exact bits v.toUInt8.toBitVec

theorem toNat_lt_of_not_le (small : ¬128 ≤ v)
    : v.toNat < 128 :=
  Nat.lt_of_not_le fun more => small (UInt64.le_iff_toNat_le.mpr more)

/-- The varint is appended group by group, by induction on the number. -/
theorem appendVarint_eq (bytes : List UInt8) (v : UInt64)
    : appendVarint bytes v = bytes ++ groups v.toNat := by
  fun_induction appendVarint bytes v with
  | case1 bytes v more ih =>
      have large : ¬v.toNat < 128 := Nat.not_lt.mpr (UInt64.le_iff_toNat_le.mp more)
      rw [ih, toNat_shiftRight_seven, groups.eq_1 v.toNat, if_neg large, toUInt8_or_continuation,
        List.append_assoc, List.singleton_append]
  | case2 bytes v small =>
      rw [groups, if_pos (toNat_lt_of_not_le small), UInt8.ofNat_uInt64ToNat]

/-- The loop writes the groups of the number. -/
theorem varint_eq (v : UInt64)
    : varint v = groups v.toNat :=
  appendVarint_eq [] v

/-- Bits of a group that are set above those of a smaller number. -/
theorem toNat_or_shiftLeft (low : v.toNat < 2 ^ shift) (inside : shift < 64) (x : UInt64)
    : v ||| (x <<< UInt64.ofNat shift) = UInt64.ofNat (v.toNat + 2 ^ shift * x.toNat) := by
  have amount : (UInt64.ofNat shift).toNat % 64 = shift := by
    rw [UInt64.toNat_ofNat']
    omega
  have room : (2 : Nat) ^ 64 = 2 ^ shift * 2 ^ (64 - shift) := by
    rw [← Nat.pow_add]
    congr 1
    omega
  have cut : x.toNat <<< shift % 2 ^ 64 = 2 ^ shift * (x.toNat % 2 ^ (64 - shift)) := by
    rw [Nat.shiftLeft_eq, Nat.mul_comm, room, Nat.mul_mod_mul_left]
  apply UInt64.toNat_inj.mp
  rw [UInt64.toNat_or, UInt64.toNat_shiftLeft, amount, cut, Nat.or_comm,
    ← Nat.two_pow_add_eq_or_of_lt low, UInt64.toNat_ofNat', ← cut, Nat.shiftLeft_eq,
    Nat.add_comm v.toNat, Nat.mul_comm (2 ^ shift)]
  have whole := Nat.two_pow_pos shift
  have high := cut
  rw [Nat.shiftLeft_eq] at high
  have bound : x.toNat * 2 ^ shift % 2 ^ 64 + v.toNat < 2 ^ 64 := by
    rw [high]
    calc 2 ^ shift * (x.toNat % 2 ^ (64 - shift)) + v.toNat
        < 2 ^ shift * (x.toNat % 2 ^ (64 - shift)) + 2 ^ shift := Nat.add_lt_add_left low _
      _ = 2 ^ shift * (x.toNat % 2 ^ (64 - shift) + 1) := by rw [Nat.mul_succ]
      _ ≤ 2 ^ shift * 2 ^ (64 - shift) :=
        Nat.mul_le_mul_left _ (Nat.mod_lt _ (Nat.two_pow_pos _))
      _ = 2 ^ 64 := room.symm
  rw [← Nat.mod_add_mod, Nat.mod_eq_of_lt bound]

/-- The seven bits of a group. -/
theorem toNat_group (b : UInt8)
    : (b &&& 0x7f).toUInt64.toNat = b.toNat % 128 := by
  rw [UInt8.toNat_toUInt64, UInt8.toNat_and]
  exact Nat.and_two_pow_sub_one_eq_mod b.toNat 7

/-- What is read leaves bytes behind it, by induction on the limit. -/
theorem suffix_of_readGroups (h : readGroups limit bytes = .ok (n, rest))
    : rest <:+ bytes := by
  induction limit generalizing n bytes with
  | zero => cases h
  | succ limit ih =>
      cases bytes with
      | nil => cases h
      | cons b tail =>
          rw [readGroups] at h
          split at h
          · cases h
            exact List.suffix_cons b _
          · split at h
            · rename_i read
              cases h
              exact (ih read).trans (List.suffix_cons b _)
            · cases h

/-- Another group takes seven bits. -/
theorem toNat_ofNat_group_lt (low : v.toNat < 2 ^ shift) {group : Nat} (small : group < 128)
    : (UInt64.ofNat (v.toNat + 2 ^ shift * group)).toNat < 2 ^ (shift + 7) := by
  rw [UInt64.toNat_ofNat']
  refine Nat.lt_of_le_of_lt (Nat.mod_le _ _) ?_
  calc v.toNat + 2 ^ shift * group
      < 2 ^ shift + 2 ^ shift * group := Nat.add_lt_add_right low _
    _ = 2 ^ shift * (group + 1) := by rw [Nat.mul_succ, Nat.add_comm]
    _ ≤ 2 ^ (shift + 7) := by
      rw [Nat.pow_add]
      exact Nat.mul_le_mul_left _ small

theorem ofNat_toNat_ofNat_add (a c : Nat)
    : UInt64.ofNat ((UInt64.ofNat a).toNat + c) = UInt64.ofNat (a + c) := by
  rw [UInt64.ofNat_add, UInt64.ofNat_toNat, UInt64.ofNat_add]

/-- Bits above the ones that were read are those of the groups behind them, by induction on how
many groups there may still be.
-/
theorem decodeGroups_eq (left : shift + 7 * limit = 70) (low : v.toNat < 2 ^ shift)
    : decodeGroups buffer i shift v
        = match readGroups limit (buffer.drop i) with
          | .ok (n, rest) =>
              .ok (UInt64.ofNat (v.toNat + 2 ^ shift * n), buffer.length - rest.length)
          | .error e => .error e := by
  induction limit generalizing i shift v with
  | zero =>
      rw [decodeGroups, if_pos (by omega)]
      rfl
  | succ limit ih =>
      rw [decodeGroups, if_neg (by omega)]
      cases found : buffer[i]? with
      | none =>
          rw [List.drop_eq_nil_of_le (List.getElem?_eq_none_iff.mp found)]
          rfl
      | some b =>
          obtain ⟨inside, own⟩ := List.getElem?_eq_some_iff.mp found
          have bits := toNat_or_shiftLeft low (by omega) (b &&& 0x7f).toUInt64
          rw [toNat_group] at bits
          rw [List.drop_eq_getElem_cons inside, own]
          simp only [readGroups, bits]
          split
          · rename_i last
            have small : b.toNat % 128 = b.toNat :=
              Nat.mod_eq_of_lt (UInt8.lt_iff_toNat_lt.mp last)
            simp only [small, List.length_drop]
            congr 2
            omega
          · rename_i more
            have high := Nat.le_of_not_lt fun less => more (UInt8.lt_iff_toNat_lt.mpr less)
            have group : b.toNat % 128 = b.toNat - 128 := by
              have := b.toNat_lt
              have : (128 : UInt8).toNat = 128 := rfl
              omega
            rw [ih (by omega) (toNat_ofNat_group_lt low (Nat.mod_lt _ (by decide)))]
            cases readGroups limit (buffer.drop (i + 1)) with
            | error e => rfl
            | ok read =>
                obtain ⟨n, rest⟩ := read
                have whole : v.toNat + 2 ^ shift * (b.toNat - 128) + 2 ^ (shift + 7) * n
                    = v.toNat + 2 ^ shift * (b.toNat - 128 + 128 * n) := by
                  rw [Nat.pow_add, Nat.mul_add, Nat.mul_assoc, Nat.add_assoc]
                simp only [ofNat_toNat_ofNat_add, group, whole]

theorem readVarint_eq (bytes : List UInt8)
    : readVarint bytes
        = match readGroups 10 bytes with
          | .ok (n, rest) => .ok (UInt64.ofNat n, rest)
          | .error e => .error e := by
  have loop := @decodeGroups_eq 0 bytes 10 0 0 rfl (by decide)
  rw [List.drop_zero] at loop
  rw [readVarint, decodeVarint, loop]
  cases read : readGroups 10 bytes with
  | error e => rfl
  | ok found =>
      obtain ⟨n, rest⟩ := found
      have behind := List.suffix_iff_eq_drop.mp (suffix_of_readGroups read)
      simp only [Nat.sub_zero, UInt64.toNat_zero, Nat.zero_add, Nat.pow_zero, Nat.one_mul, ← behind]

end

-----------------------------------------------------------------------------------------
-- Sizes
-----------------------------------------------------------------------------------------

/-- Each bit that is cut off a longer number takes one from its logarithm. -/
theorem log2_eq_log2_div_add {n bits : Nat} (h : 2 ^ bits ≤ n)
    : n.log2 = (n / 2 ^ bits).log2 + bits := by
  have power : 0 < 2 ^ bits := Nat.two_pow_pos bits
  have high : n / 2 ^ bits ≠ 0 := Nat.ne_of_gt (Nat.div_pos h power)
  obtain ⟨lower, upper⟩ := (Nat.log2_eq_iff high).mp rfl
  refine (Nat.log2_eq_iff (by omega)).mpr ⟨?_, ?_⟩
  · rw [Nat.pow_add]
    exact (Nat.le_div_iff_mul_le power).mp lower
  · rw [Nat.add_right_comm, Nat.pow_add]
    exact (Nat.div_lt_iff_lt_mul power).mp upper

/-- A number takes one group for each seven bits, by induction on the groups. -/
theorem length_groups (n : Nat)
    : (groups n).length = n.log2 / 7 + 1 := by
  fun_induction groups n with
  | case1 n small =>
      rcases Nat.eq_zero_or_pos n with rfl | positive
      · rfl
      · have := (Nat.log2_lt (k := 7) (Nat.ne_of_gt positive)).mpr small
        simp only [List.length_singleton]
        omega
  | case2 n large ih =>
      have shorter : n.log2 = (n / 128).log2 + 7 :=
        log2_eq_log2_div_add (Nat.le_of_not_lt large : 2 ^ 7 ≤ n)
      simp only [List.length_cons, ih]
      omega

/-- The size tells the groups by the place of the highest bit. -/
theorem varintSize_eq (v : UInt64)
    : varintSize v = v.toNat.log2 / 7 + 1 := by
  have odd : (v ||| 1).toNat = v.toNat ||| 1 := UInt64.toNat_or v 1
  have positive : v.toNat ||| 1 ≠ 0 := Nat.ne_of_gt (Nat.lt_of_lt_of_le Nat.one_pos Nat.right_le_or)
  have some : (v ||| 1).toBitVec ≠ 0#64 := fun none => positive (odd ▸ congrArg BitVec.toNat none)
  have lower : 2 ^ (63 - leadingZeros (v ||| 1)) ≤ v.toNat ||| 1 :=
    odd ▸ BitVec.two_pow_sub_clz_le_toNat_of_ne_zero (by decide) some
  have upper : v.toNat ||| 1 < 2 ^ (64 - leadingZeros (v ||| 1)) :=
    odd ▸ BitVec.toNat_lt_two_pow_sub_clz
  have less : leadingZeros (v ||| 1) < 64 :=
    BitVec.lt_def.mp (BitVec.clz_lt_iff_ne_zero.mpr some)
  have highest : (v.toNat ||| 1).log2 = v.toNat.log2 := by
    rcases Nat.eq_zero_or_pos v.toNat with zero | more
    · rw [zero]
      rfl
    · obtain ⟨least, most⟩ := (Nat.log2_eq_iff (Nat.ne_of_gt more)).mp rfl
      refine (Nat.log2_eq_iff positive).mpr ⟨Nat.le_trans least Nat.left_le_or, ?_⟩
      exact Nat.or_lt_two_pow most (Nat.one_lt_two_pow (Nat.succ_ne_zero _))
  have place : (v.toNat ||| 1).log2 = 63 - leadingZeros (v ||| 1) := by
    refine (Nat.log2_eq_iff positive).mpr ⟨lower, ?_⟩
    rwa [show 63 - leadingZeros (v ||| 1) + 1 = 64 - leadingZeros (v ||| 1) by omega]
  rw [varintSize, ← highest, place]
  omega

/-- The size that is computed from the leading zeros is the length of the varint. -/
theorem length_varint (v : UInt64)
    : (varint v).length = varintSize v := by
  rw [varint_eq, length_groups, varintSize_eq]

theorem varint_ne_nil (v : UInt64)
    : varint v ≠ [] := by
  intro empty
  have length := length_varint v
  rw [empty] at length
  simp [varintSize_eq] at length

theorem ofNat_lt_iff {n : Nat} (h : n < 256)
    : UInt8.ofNat n < 128 ↔ n < 128 := by
  rw [UInt8.lt_iff_toNat_lt, UInt8.toNat_ofNat', Nat.mod_eq_of_lt h]
  rfl

/-- A single group is the last one. -/
theorem readGroups_of_lt {n : Nat} (h : n < 128) (limit : Nat) (rest : List UInt8)
    : readGroups (limit + 1) (groups n ++ rest) = .ok (n, rest) := by
  have last : UInt8.ofNat n < 128 := (ofNat_lt_iff (by omega)).mpr h
  rw [groups, if_pos h, List.singleton_append, readGroups, if_pos last, UInt8.toNat_ofNat',
    Nat.mod_eq_of_lt (by omega)]

/-- A number of at most `limit + 1` groups is read back from them, by induction on the limit. -/
theorem readGroups_groups {limit n : Nat} (h : n < 128 ^ (limit + 1)) (rest : List UInt8)
    : readGroups (limit + 1) (groups n ++ rest) = .ok (n, rest) := by
  induction limit generalizing n with
  | zero => exact readGroups_of_lt (by simpa using h) 0 rest
  | succ limit ih =>
      by_cases small : n < 128
      · exact readGroups_of_lt small (limit + 1) rest
      have fewer : n / 128 < 128 ^ (limit + 1) := by
        rw [Nat.div_lt_iff_lt_mul (by decide), ← Nat.pow_succ]
        exact h
      have more : ¬UInt8.ofNat (n % 128 + 128) < 128 := by
        rw [ofNat_lt_iff (by omega)]
        omega
      rw [groups, if_neg small, List.cons_append, readGroups, if_neg more, ih fewer]
      simp only [UInt8.toNat_ofNat']
      congr
      omega

/-- Every varint is read back, whatever stands behind it. -/
theorem readVarint_varint (v : UInt64) (rest : List UInt8)
    : readVarint (varint v ++ rest) = .ok (v, rest) := by
  have bound : v.toNat < 128 ^ (9 + 1) := Nat.lt_trans v.toNat_lt (by decide)
  rw [readVarint_eq, varint_eq, readGroups_groups bound]
  simp only [UInt64.ofNat_toNat]

/-- Every varint is decoded where it stands, whatever surrounds it. -/
theorem decodeVarint_varint (v : UInt64) (front behind : List UInt8)
    : decodeVarint (front ++ (varint v ++ behind)) front.length = .ok (v, varintSize v) := by
  have bound : v.toNat < 128 ^ (9 + 1) := Nat.lt_trans v.toNat_lt (by decide)
  have loop := @decodeGroups_eq 0 (front ++ (varint v ++ behind)) 10 front.length 0 rfl (by decide)
  rw [List.drop_left, varint_eq, readGroups_groups bound, ← varint_eq] at loop
  rw [decodeVarint, loop]
  simp only [UInt64.toNat_zero, Nat.zero_add, Nat.pow_zero, Nat.one_mul, UInt64.ofNat_toNat,
    List.length_append, length_varint]
  congr 2
  omega

end Protobuf.Wire
