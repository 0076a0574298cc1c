import Protobuf.Wire.Zigzag

/-! The zigzag number of an integer is its place in the order 0, -1, 1, -2, 2, …, and every integer
is found again at its place.
-/

namespace Protobuf.Wire

-----------------------------------------------------------------------------------------
-- Places
-----------------------------------------------------------------------------------------

/-- The place of an integer in the zigzag order. -/
def zigzag (v : Int) : Nat :=
  if 0 ≤ v then 2 * v.toNat else 2 * (-v).toNat - 1

/-- The integer at a place of the zigzag order. -/
def unzigzag (n : Nat) : Int :=
  if n % 2 = 0 then (n / 2 : Nat) else -((n / 2 : Nat) + 1 : Int)

/-- Every integer is found again at its place. -/
theorem unzigzag_zigzag (v : Int)
    : unzigzag (zigzag v) = v := by
  simp only [zigzag, unzigzag]
  split <;> split <;> omega

-----------------------------------------------------------------------------------------
-- Words
-----------------------------------------------------------------------------------------

variable {w : Nat}

/-- The sign that is shifted through a word flips all its bits or none of them. -/
theorem toNat_zigzag_bits (x : BitVec (w + 1))
    : (x <<< 1 ^^^ x.sshiftRight w).toNat = zigzag x.toInt := by
  have shifted : (x <<< 1).toNat = 2 * x.toNat % 2 ^ (w + 1) := by
    rw [BitVec.toNat_shiftLeft, Nat.shiftLeft_eq, Nat.mul_comm, Nat.pow_one]
  have bound := x.isLt
  have power : (2 : Nat) ^ (w + 1) = 2 * 2 ^ w := Nat.pow_succ'
  have half : x.msb = decide (2 ^ w ≤ x.toNat) := by
    rw [BitVec.msb_eq_decide]
    rfl
  rw [BitVec.toInt_eq_msb_cond, zigzag]
  cases sign : x.msb with
  | false =>
      have small : x.toNat < 2 ^ w := by
        rw [sign] at half
        simpa using half.symm
      have none : x >>> w = 0#(w + 1) := by
        apply BitVec.eq_of_toNat_eq
        rw [BitVec.toNat_ushiftRight, Nat.shiftRight_eq_div_pow, Nat.div_eq_of_lt small]
        rfl
      rw [BitVec.sshiftRight_eq_of_msb_false sign, none, BitVec.xor_zero, shifted,
        Nat.mod_eq_of_lt (by omega)]
      simp
  | true =>
      have large : 2 ^ w ≤ x.toNat := by
        rw [sign] at half
        simpa using half.symm
      have none : ~~~x >>> w = 0#(w + 1) := by
        apply BitVec.eq_of_toNat_eq
        rw [BitVec.toNat_ushiftRight, Nat.shiftRight_eq_div_pow, BitVec.toNat_not,
          Nat.div_eq_of_lt (by omega)]
        rfl
      have wrapped : 2 * x.toNat % 2 ^ (w + 1) = 2 * x.toNat - 2 ^ (w + 1) := by
        rw [Nat.mod_eq_sub_mod (by omega), Nat.mod_eq_of_lt (by omega)]
      rw [BitVec.sshiftRight_eq_of_msb_true sign, none, BitVec.not_zero, BitVec.xor_allOnes,
        BitVec.toNat_not, shifted, wrapped]
      rw [if_pos rfl, if_neg (by omega)]
      omega

/-- The lowest bit of a place tells the sign, which flips the bits above it. -/
theorem toInt_unzigzag_bits (n : BitVec (w + 1)) (wide : 0 < w)
    : (n >>> 1 ^^^ -(n &&& 1#(w + 1))).toInt = unzigzag n.toNat := by
  have bound := n.isLt
  have power : (2 : Nat) ^ (w + 1) = 2 * 2 ^ w := Nat.pow_succ'
  have room : 2 ≤ 2 ^ w := by
    calc 2 = 2 ^ 1 := rfl
      _ ≤ 2 ^ w := Nat.pow_le_pow_right (by decide) wide
  have halved : (n >>> 1).toNat = n.toNat / 2 := by
    rw [BitVec.toNat_ushiftRight, Nat.shiftRight_eq_div_pow, Nat.pow_one]
  have single : (1#(w + 1)).toNat = 1 := by
    rw [BitVec.toNat_ofNat, Nat.mod_eq_of_lt (by omega)]
  have lowest : (n &&& 1#(w + 1)).toNat = n.toNat % 2 := by
    rw [BitVec.toNat_and, single, Nat.and_one_is_mod]
  rw [unzigzag]
  rcases Nat.mod_two_eq_zero_or_one n.toNat with even | odd
  · have none : n &&& 1#(w + 1) = 0#(w + 1) := BitVec.eq_of_toNat_eq (lowest.trans even)
    rw [none, BitVec.neg_zero, BitVec.xor_zero, if_pos even,
      BitVec.toInt_eq_toNat_of_lt (by omega), halved]
  · have one : n &&& 1#(w + 1) = 1#(w + 1) :=
      BitVec.eq_of_toNat_eq (lowest.trans (odd.trans single.symm))
    have flipped : (~~~(n >>> 1)).toNat = 2 ^ (w + 1) - 1 - n.toNat / 2 := by
      rw [BitVec.toNat_not, halved]
    rw [one, BitVec.neg_one_eq_allOnes, BitVec.xor_allOnes, if_neg (by omega),
      BitVec.toInt_eq_toNat_cond, flipped, if_neg (by omega)]
    omega

/-- Shifting and flipping bits computes the zigzag form. -/
theorem toNat_zigzag32 (v : Int32)
    : (zigzag32 v).toNat = zigzag v.toInt :=
  toNat_zigzag_bits v.toBitVec

theorem toNat_zigzag64 (v : Int64)
    : (zigzag64 v).toNat = zigzag v.toInt :=
  toNat_zigzag_bits v.toBitVec

/-- Shifting and flipping bits computes the number behind a zigzag form. -/
theorem toInt_unzigzag32 (n : UInt32)
    : (unzigzag32 n).toInt = unzigzag n.toNat :=
  toInt_unzigzag_bits n.toBitVec (by decide)

theorem toInt_unzigzag64 (n : UInt64)
    : (unzigzag64 n).toInt = unzigzag n.toNat :=
  toInt_unzigzag_bits n.toBitVec (by decide)

/-- The 32-bit numbers come back from their zigzag form. -/
theorem unzigzag32_zigzag32 (v : Int32)
    : unzigzag32 (zigzag32 v) = v := by
  apply Int32.toInt_inj.mp
  rw [toInt_unzigzag32, toNat_zigzag32, unzigzag_zigzag]

/-- The 64-bit numbers come back from their zigzag form. -/
theorem unzigzag64_zigzag64 (v : Int64)
    : unzigzag64 (zigzag64 v) = v := by
  apply Int64.toInt_inj.mp
  rw [toInt_unzigzag64, toNat_zigzag64, unzigzag_zigzag]

/-- The size that is computed from the bits of an integer is that of its zigzag number. -/
theorem zigzagSize_toUInt64 (v : Int64)
    : zigzagSize v.toUInt64 = varintSize (zigzag64 v) := by
  rw [zigzagSize, Int64.toInt64_toUInt64]
  rfl

end Protobuf.Wire
