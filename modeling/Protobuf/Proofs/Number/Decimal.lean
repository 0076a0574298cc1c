import Protobuf.Proofs.Number.Rounding

/-! Decimals are read as the nearest number of a format.  Powers of ten that are beyond every format
need no arithmetic, so the formats are those of moderate size.
-/

namespace Protobuf.Number

/-- Powers of ten are above the powers of eight. -/
theorem two_zpow_le {e : Int} (above : 0 ≤ e)
    : (2 : ℚ) ^ (3 * e) ≤ 10 ^ e := by
  obtain ⟨n, rfl⟩ := Int.eq_ofNat_of_zero_le above
  rw [zpow_mul, zpow_natCast, zpow_natCast]
  exact pow_le_pow_left₀ (by positivity) (by norm_num) n

/-- Negative powers of ten are below those of eight. -/
theorem ten_zpow_le {e : Int} (below : e ≤ 0)
    : (10 : ℚ) ^ e ≤ 2 ^ (3 * e) := by
  have inverse := two_zpow_le (e := -e) (by omega)
  rw [mul_neg, zpow_neg, zpow_neg] at inverse
  exact (inv_le_inv₀ (zpow_pos (by norm_num) _) (zpow_pos (by norm_num) _)).mp inverse

/-- A format whose numbers lie well between the powers of ten that are decided by their length. -/
structure Format.IsModerate (f : Format) : Prop where
  fraction : 0 < f.fractionBits
  short : f.fractionBits ≤ 60
  low : -1100 ≤ f.minExponent
  high : f.minExponent + (2 ^ f.exponentBits : Nat) ≤ 1000

theorem isModerate_single : single.IsModerate := by
  constructor <;> decide

theorem isModerate_double : double.IsModerate := by
  constructor <;> decide

namespace Format

/-- The exponents of magnitudes. -/
theorem IsModerate.exponent_bounds {f : Format} (moderate : f.IsModerate) {pattern : Nat}
    (bounded : pattern ≤ f.infinity)
    : -1100 ≤ (f.magnitude pattern).2 ∧ (f.magnitude pattern).2 < 1000 := by
  have low := moderate.low
  have high := moderate.high
  have biased : pattern / 2 ^ f.fractionBits ≤ 2 ^ f.exponentBits - 1 :=
    Nat.div_le_of_le_mul (Nat.mul_comm _ _ ▸ bounded)
  have positive := Nat.two_pow_pos f.exponentBits
  rw [(f.magnitude_parts pattern).2.2.2, places]
  generalize pattern / 2 ^ f.fractionBits = biased at biased ⊢
  omega

theorem IsModerate.real_lt {f : Format} (moderate : f.IsModerate) {pattern : Nat}
    (bounded : pattern ≤ f.infinity)
    : f.real pattern < 10 ^ (400 : Int) := by
  have short := (f.magnitude_parts pattern).2.2.1
  have mantissa : ((f.magnitude pattern).1 : ℚ) < 2 ^ (61 : Int) := by
    have := Nat.lt_of_lt_of_le short (Nat.pow_le_pow_right (by decide)
      (show f.fractionBits + 1 ≤ 61 from Nat.succ_le_succ moderate.short))
    exact_mod_cast this
  have power : (2 : ℚ) ^ (f.magnitude pattern).2 ≤ 2 ^ (1000 : Int) :=
    zpow_le_zpow_right₀ (by norm_num) (Int.le_of_lt (moderate.exponent_bounds bounded).2)
  calc f.real pattern
      = (f.magnitude pattern).1 * 2 ^ (f.magnitude pattern).2 := f.real_eq_magnitude pattern
    _ < 2 ^ (61 : Int) * 2 ^ (1000 : Int) :=
        mul_lt_mul mantissa power (zpow_pos (by norm_num) _) (by positivity)
    _ = 2 ^ (1061 : Int) := by rw [← zpow_add₀ (by norm_num)]; rfl
    _ ≤ 2 ^ (3 * 400 : Int) := zpow_le_zpow_right₀ (by norm_num) (by norm_num)
    _ ≤ 10 ^ (400 : Int) := two_zpow_le (by norm_num)

theorem IsModerate.lt_boundary {f : Format} (moderate : f.IsModerate)
    : (10 : ℚ) ^ (-400 : Int) < f.boundary 0 := by
  have unit : (2 : ℚ) ^ (-1100 : Int) ≤ 2 ^ f.minExponent :=
    zpow_le_zpow_right₀ (by norm_num) moderate.low
  have first : f.real 1 = 2 ^ f.minExponent := by
    have parts := f.real_of_parts (.inl rfl)
      (show 1 ≤ 2 ^ (f.fractionBits + 1) from Nat.one_le_two_pow)
    simpa using parts
  have small : (10 : ℚ) ^ (-400 : Int) < 2 ^ (-1101 : Int) :=
    (ten_zpow_le (by norm_num)).trans_lt (zpow_lt_zpow_right₀ (by norm_num) (by norm_num))
  have half : (2 : ℚ) ^ (-1100 : Int) = 2 * 2 ^ (-1101 : Int) := by
    rw [← zpow_one_add₀ (by norm_num)]
    rfl
  rw [boundary, real_zero, first]
  linarith

end Format

namespace Decimal

/-- The number without its sign. -/
def size (d : Decimal) : ℚ :=
  d.coefficient * 10 ^ d.exponent

/-- The size by the power of ten of the first digit. -/
theorem size_bounds {d : Decimal} (written : d.coefficient ≠ 0)
    : 10 ^ d.leadingExponent ≤ d.size ∧ d.size < 10 ^ (d.leadingExponent + 1) := by
  have bound (k : Nat) (positive : 0 < k) : d.digits.length ≤ k ↔ d.coefficient < 10 ^ k :=
    Nat.length_toDigits_le_iff (by decide) positive
  obtain ⟨more, length⟩ : ∃ more, d.digits.length = more + 1 :=
    Nat.exists_eq_add_one.mpr Nat.length_toDigits_pos
  have below : d.coefficient < 10 ^ (more + 1) := (bound _ more.succ_pos).mp (Nat.le_of_eq length)
  have above : 10 ^ more ≤ d.coefficient := by
    rcases Nat.eq_zero_or_pos more with rfl | positive
    · exact Nat.pos_of_ne_zero written
    · exact Nat.le_of_not_lt fun less => by have := (bound more positive).mpr less; omega
  have power (n : Nat) : (10 : ℚ) ^ ((n : Int) + d.exponent) = 10 ^ n * 10 ^ d.exponent := by
    rw [zpow_add₀ (by norm_num), zpow_natCast]
  have unit : (0 : ℚ) < 10 ^ d.exponent := zpow_pos (by norm_num) _
  have lead : d.leadingExponent = (more : Int) + d.exponent := by
    rw [leadingExponent, length]
    push_cast
    ring
  constructor
  · rw [lead, power]
    exact mul_le_mul_of_nonneg_right (by exact_mod_cast above) unit.le
  · rw [lead, add_right_comm, show (more : Int) + 1 = (more + 1 : Nat) by push_cast; rfl, power]
    exact mul_lt_mul_of_pos_right (by exact_mod_cast below) unit

/-- A decimal is read as the nearest magnitude. -/
theorem isNearest_toMagnitude {f : Format} (moderate : f.IsModerate) (d : Decimal)
    : f.IsNearest d.size (d.toMagnitude f) := by
  unfold toMagnitude
  split
  · rename_i zero
    have size : d.size = f.real 0 := by simp [Decimal.size, zero]
    rw [size]
    exact f.isNearest_real (Nat.zero_le _)
  rename_i written
  obtain ⟨low, high⟩ := size_bounds written
  split
  · rename_i large
    refine ⟨le_rfl, fun below same => .inl ?_, fun less => absurd less (Nat.lt_irrefl _)⟩
    have power : (10 : ℚ) ^ (400 : Int) ≤ 10 ^ d.leadingExponent :=
      zpow_le_zpow_right₀ (by norm_num) (by omega)
    have last := moderate.real_lt (le_refl f.infinity)
    have less := f.boundary_lt_real below
    rw [← same] at less
    linarith
  split
  · rename_i small
    refine ⟨Nat.zero_le _,
      fun below same => absurd same (Nat.succ_ne_zero _).symm, fun _ => .inl ?_⟩
    have power : (10 : ℚ) ^ (d.leadingExponent + 1) ≤ 10 ^ (-400 : Int) :=
      zpow_le_zpow_right₀ (by norm_num) (by omega)
    exact (high.trans_le power).trans moderate.lt_boundary
  · have ratio : d.size
        = ((d.coefficient * 10 ^ d.exponent.toNat : Nat) : ℚ) /
          (10 ^ (-d.exponent).toNat : Nat) := by
      rw [Decimal.size, zpow_eq_toNat_div]
      push_cast
      rw [mul_div_assoc]
    rw [ratio]
    exact Format.isNearest_ofRatio moderate.fraction
      (Nat.mul_pos (Nat.pos_of_ne_zero written) (Nat.pow_pos (by decide)))
      (Nat.pow_pos (by decide))

end Decimal

end Protobuf.Number
