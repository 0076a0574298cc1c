import Protobuf.Proofs.Number.Neighbours

/-! The way of a decimal through a `double` to a `float`.  The points halfway between the numbers of
the short format are numbers of the long one, so rounding twice differs from rounding once only
where the first rounding ends at such a point; the shortest decimals of all numbers but one keep
away from them.
-/

namespace Protobuf.Number

namespace Format

-----------------------------------------------------------------------------------------
-- Numbers of a format
-----------------------------------------------------------------------------------------

/-- A number with a short mantissa is in the order of the magnitudes, by induction on its shift. -/
theorem exists_units (f : Format) {mantissa : Nat} (shift : Nat)
    (short : mantissa ≤ 2 ^ (f.fractionBits + 1))
    : ∃ pattern, f.units pattern = mantissa * 2 ^ shift := by
  induction shift generalizing mantissa with
  | zero => exact ⟨_, f.units_of_parts (.inl rfl) short⟩
  | succ shift ih =>
      rcases Nat.lt_or_ge mantissa (2 ^ f.fractionBits) with less | long
      · have double : 2 * mantissa ≤ 2 ^ (f.fractionBits + 1) := by
          rw [Nat.pow_succ]
          omega
        obtain ⟨pattern, same⟩ := ih double
        refine ⟨pattern, same.trans ?_⟩
        rw [Nat.pow_succ]
        ring
      · exact ⟨_, f.units_of_parts (.inr long) short⟩

/-- A number is within half a unit of its last place of what rounds to it. -/
theorem IsNearest.abs_sub_le {f : Format} {x : ℚ} {pattern : Nat}
    (nearest : f.IsNearest x (pattern + 1)) (finite : pattern + 1 < f.infinity)
    : |x - f.real (pattern + 1)| ≤ 2 ^ (f.magnitude (pattern + 1)).2 / 2 := by
  have unit : (0 : ℚ) < 2 ^ (f.magnitude (pattern + 1)).2 := zpow_pos (by norm_num) _
  have low : f.boundary pattern ≤ x :=
    (nearest.above pattern rfl).elim le_of_lt fun same => same.1.le
  have high : x ≤ f.boundary (pattern + 1) :=
    (nearest.below finite).elim le_of_lt fun same => same.1.le
  rw [f.boundary_eq] at high
  rw [f.boundary_pred] at low
  rw [abs_le]
  constructor
  · split at low <;> linarith
  · linarith

/-- The last place of a number with few digits is far below them. -/
theorem exponent_le_of_real {f : Format} {pattern mantissa : Nat} {exponent : Int} {bits : Nat}
    (same : f.real pattern = mantissa * 2 ^ exponent) (short : mantissa < 2 ^ bits)
    (above : f.minExponent + f.fractionBits < exponent + bits)
    : (f.magnitude pattern).2 + f.fractionBits < exponent + bits := by
  obtain ⟨-, long, -, last⟩ := f.magnitude_parts pattern
  rcases long with zero | long
  · rw [last, zero]
    simpa using above
  · have unit : (0 : ℚ) < 2 ^ (f.magnitude pattern).2 := zpow_pos (by norm_num) _
    have unit' : (0 : ℚ) < 2 ^ exponent := zpow_pos (by norm_num) _
    refine (zpow_lt_zpow_iff_right₀ (by norm_num : (1 : ℚ) < 2)).mp ?_
    calc (2 : ℚ) ^ ((f.magnitude pattern).2 + f.fractionBits)
        = 2 ^ f.fractionBits * 2 ^ (f.magnitude pattern).2 := by
          rw [zpow_add₀ (by norm_num), zpow_natCast, mul_comm]
      _ ≤ (f.magnitude pattern).1 * 2 ^ (f.magnitude pattern).2 :=
          mul_le_mul_of_nonneg_right (by exact_mod_cast long) unit.le
      _ = mantissa * 2 ^ exponent := by rw [← f.real_eq_magnitude, same]
      _ < 2 ^ bits * 2 ^ exponent :=
          mul_lt_mul_of_pos_right (by exact_mod_cast short) unit'
      _ = 2 ^ (exponent + bits) := by rw [zpow_add₀ (by norm_num), zpow_natCast, mul_comm]

end Format

/-- A number of at most 53 bits is a `double` number if its exponent is not too large. -/
theorem exists_double {mantissa shift : Nat} (short : mantissa ≤ 2 ^ 53) (few : shift < 2045)
    : ∃ wide < double.infinity, double.real wide = mantissa * 2 ^ ((shift : Int) - 1074) := by
  obtain ⟨wide, units⟩ := double.exists_units shift short
  refine ⟨wide, double.units_strictMono.lt_iff_lt.mp ?_, ?_⟩
  · obtain ⟨top, large⟩ : ∃ top, top = 2046 := ⟨_, rfl⟩
    have last : double.units double.infinity = 2 ^ 52 * 2 ^ top := by
      have parts : double.units (top * 2 ^ 52 + 2 ^ 52) = 2 ^ 52 * 2 ^ top :=
        double.units_of_parts (.inr le_rfl) (by decide)
      rw [← parts, large]
      rfl
    rw [units, last]
    calc mantissa * 2 ^ shift
        ≤ 2 ^ 53 * 2 ^ shift := Nat.mul_le_mul_right _ short
      _ = 2 ^ 52 * 2 ^ (shift + 1) := by ring
      _ < 2 ^ 52 * 2 ^ top :=
          Nat.mul_lt_mul_of_pos_left (Nat.pow_lt_pow_right (by decide) (by omega)) (by decide)
  · have least : double.minExponent = -1074 := by decide
    rw [Format.real, units, least, sub_eq_add_neg, zpow_add₀ (by norm_num), zpow_natCast,
      Nat.cast_mul, Nat.cast_pow, Nat.cast_ofNat, mul_assoc]

-----------------------------------------------------------------------------------------
-- Halfway points
-----------------------------------------------------------------------------------------

/-- The mantissas and exponents of finite `float` numbers. -/
theorem single_parts {pattern : Nat} (finite : pattern < single.infinity)
    : (single.magnitude pattern).1 < 2 ^ 24
      ∧ (single.magnitude pattern).2 = (single.places pattern : Int) - 149
      ∧ single.places pattern < 254 := by
  obtain ⟨-, -, short, exponent⟩ := single.magnitude_parts pattern
  refine ⟨short, exponent.trans (Int.add_comm _ _), ?_⟩
  have biased : pattern / 2 ^ 23 < 255 := Nat.div_lt_of_lt_mul (Nat.mul_comm _ _ ▸ finite)
  have places : single.places pattern = pattern / 2 ^ 23 - 1 := rfl
  omega

/-- The points halfway between `float` numbers are `double` numbers. -/
theorem exists_real_eq_boundary {pattern : Nat} (finite : pattern < single.infinity)
    : ∃ wide < double.infinity, double.real wide = single.boundary pattern := by
  obtain ⟨short, exponent, few⟩ := single_parts finite
  have fits : 2 * (single.magnitude pattern).1 + 1 ≤ 2 ^ 53 :=
    Nat.le_trans (show _ ≤ 2 ^ 25 by omega) (by decide)
  obtain ⟨wide, bounded, number⟩ :=
    exists_double fits (show single.places pattern + 924 < 2045 by omega)
  have last : (single.magnitude pattern).2
      = 1 + (((single.places pattern + 924 : Nat) : Int) - 1074) := by omega
  generalize ((single.places pattern + 924 : Nat) : Int) - 1074 = half at number last
  refine ⟨wide, bounded, number.trans ?_⟩
  rw [single.boundary_eq, single.real_eq_magnitude, last, zpow_one_add₀ (by norm_num)]
  push_cast
  ring

/-- The magnitude whose shortest decimal comes so near to the point halfway to the next that the
nearest `double` is this point.
-/
def doubleRounded : Nat := 0x15ae43fd

/-- A decimal that is the shortest of an odd magnitude does not round to a point halfway to one of
its neighbours.
-/
theorem eq_of_real_eq_halves {pattern wide halves k : Nat} {power : Int}
    (finite : pattern < single.infinity) (odd : pattern % 2 = 1) (other : pattern ≠ doubleRounded)
    (beside : halves = 2 * (single.magnitude pattern).1 + 1
      ∨ halves + 1 = 2 * (single.magnitude pattern).1)
    (positive : 0 < k)
    (step : |k * 10 ^ power - single.real pattern| ≤ (10 : ℚ) ^ power / 2)
    (nearest : double.IsNearest (k * 10 ^ power) wide) (bounded : wide < double.infinity)
    (same : double.real wide = halves * 2 ^ ((single.magnitude pattern).2 - 1))
    : (k * 10 ^ power : ℚ) = halves * 2 ^ ((single.magnitude pattern).2 - 1) := by
  obtain ⟨short, exponent, few⟩ := single_parts finite
  obtain ⟨whole, -⟩ := single.magnitude_parts pattern
  have parity := Format.mod_two_magnitude (f := single) (by decide) pattern
  have center := single.real_eq_magnitude pattern
  generalize (single.magnitude pattern).1 = mantissa at *
  generalize (single.magnitude pattern).2 = last at *
  have small : halves < 2 ^ 25 := by omega
  have half : (0 : ℚ) < 2 ^ (last - 1) := zpow_pos (by norm_num) _
  have shifted (n : Nat) : (2 : ℚ) ^ (last - 1 - n) = 2 ^ (last - 1) / 2 ^ n := by
    rw [zpow_sub₀ (by norm_num), zpow_natCast]
  -- The first rounding moves the decimal by a small part of a half.
  have near : |(k * 10 ^ power - halves * 2 ^ (last - 1) : ℚ)| ≤ 2 ^ (last - 30) := by
    obtain ⟨under, rfl⟩ : ∃ under, wide = under + 1 := by
      refine Nat.exists_eq_add_one.mpr (Nat.pos_of_ne_zero fun zero => ?_)
      have some : (0 : ℚ) < halves * 2 ^ (last - 1) :=
        mul_pos (by exact_mod_cast (show 0 < halves by omega)) half
      rw [zero, Format.real_zero] at same
      exact some.ne same
    have least : double.minExponent = -1074 := by decide
    have fine := Format.exponent_le_of_real same small
      (by rw [least, show double.fractionBits = 52 from rfl]; omega)
    have moved := nearest.abs_sub_le bounded
    rw [same] at moved
    refine moved.trans ?_
    rw [div_eq_mul_inv, ← zpow_sub_one₀ (by norm_num)]
    refine zpow_le_zpow_right₀ (by norm_num) ?_
    rw [show double.fractionBits = 52 from rfl] at fine
    omega
  have coarse : (2 : ℚ) ^ last - 2 ^ (last - 29) ≤ 10 ^ power := by
    have apart : |(halves : ℚ) - 2 * mantissa| = 1 := by
      rcases beside with rfl | above
      · push_cast
        rw [add_sub_cancel_left, abs_one]
      · have above : (halves : ℚ) + 1 = 2 * mantissa := by exact_mod_cast above
        rw [← above, sub_add_cancel_left, abs_neg, abs_one]
    have twice : (2 : ℚ) ^ last = 2 * 2 ^ (last - 1) := by
      rw [← zpow_one_add₀ (by norm_num), add_sub_cancel]
    have distance : |halves * 2 ^ (last - 1) - single.real pattern| = 2 ^ (last - 1) := by
      rw [center, twice, ← mul_assoc, mul_comm (mantissa : ℚ), ← sub_mul, abs_mul, apart, one_mul,
        abs_of_pos half]
    have triangle := abs_sub_abs_le_abs_sub (halves * 2 ^ (last - 1) - single.real pattern : ℚ)
      (k * 10 ^ power - single.real pattern)
    rw [sub_sub_sub_cancel_right, distance] at triangle
    rw [show last - 30 = last - 1 - (29 : Nat) by ring, shifted, abs_sub_comm] at near
    rw [show last - 29 = last - 1 - (28 : Nat) by ring, shifted, twice]
    linarith
  have grid := isApart_of_ne (single.places pattern) few
  rw [← exponent] at grid
  by_cases special : single.places pattern = 42
  · rw [special] at exponent
    subst exponent
    refine (eq_of_near_107 positive small coarse near).resolve_right fun listed => other ?_
    have bits : single.fractionBits = 23 := rfl
    rw [special, bits] at whole
    rw [doubleRounded]
    omega
  · exact eq_of_isApart grid.1 positive small coarse near (grid.2 special)

/-- The nearest `double` of the shortest decimal of a `float` rounds to the `float`. -/
theorem isNearest_narrow {pattern wide k : Nat} {power : Int}
    (finite : pattern + 1 < single.infinity) (other : pattern + 1 ≠ doubleRounded)
    (positive : 0 < k) (step : (pattern + 1) % 2 = 1
      → |k * 10 ^ power - single.real (pattern + 1)| ≤ (10 : ℚ) ^ power / 2)
    (near : single.IsNearest (k * 10 ^ power) (pattern + 1))
    (nearest : double.IsNearest (k * 10 ^ power) wide)
    : wide < double.infinity ∧ single.IsNearest (double.real wide) (pattern + 1) := by
  obtain ⟨left, leftFinite, low⟩ := exists_real_eq_boundary (Nat.lt_of_succ_lt finite)
  obtain ⟨right, rightFinite, high⟩ := exists_real_eq_boundary finite
  have above := near.above pattern rfl
  have below := near.below finite
  -- The first rounding keeps the order of the decimal and the points halfway to the neighbours.
  have leftLe : left ≤ wide :=
    (double.isNearest_real (Nat.le_of_lt leftFinite)).le nearest
      (low ▸ above.elim le_of_lt fun same => same.1.le)
  have rightLe : wide ≤ right :=
    nearest.le (double.isNearest_real (Nat.le_of_lt rightFinite))
      (high ▸ below.elim le_of_lt fun same => same.1.le)
  have bounded := Nat.lt_of_le_of_lt rightLe rightFinite
  have lowLe := double.real_strictMono.monotone leftLe
  have highLe := double.real_strictMono.monotone rightLe
  rw [low] at lowLe
  rw [high] at highLe
  rcases Nat.mod_two_eq_zero_or_one (pattern + 1) with even | odd
  · exact ⟨bounded, Nat.le_of_lt finite,
      fun under same => by
        obtain rfl : pattern = under := Nat.succ.inj same
        exact lowLe.lt_or_eq.imp_right fun same => ⟨same, even⟩,
      fun _ => highLe.lt_or_eq.imp_right fun same => ⟨same, even⟩⟩
  · have above := above.resolve_right fun same => by omega
    have below := below.resolve_right fun same => by omega
    have avoids (halves : Nat) (point : ℚ)
        (beside : halves = 2 * (single.magnitude (pattern + 1)).1 + 1
          ∨ halves + 1 = 2 * (single.magnitude (pattern + 1)).1)
        (same : point = halves * 2 ^ ((single.magnitude (pattern + 1)).2 - 1))
        (apart : k * 10 ^ power ≠ point)
        : double.real wide ≠ point := by
      subst same
      exact fun same => apart
        (eq_of_real_eq_halves finite odd other beside positive (step odd) nearest bounded same)
    have parity := Format.mod_two_magnitude (f := single) (by decide) (pattern + 1)
    have upper := single.boundary_eq (pattern + 1)
    have lower := single.boundary_pred pattern
    have dense : (single.magnitude (pattern + 1)).1 ≠ 2 ^ single.fractionBits := by
      have bits : single.fractionBits = 23 := rfl
      rw [bits]
      omega
    dsimp only at lower
    rw [if_neg fun h => dense h.1] at lower
    rw [single.real_eq_magnitude] at upper lower
    have positive := Format.magnitude_pos (f := single) pattern.succ_pos
    generalize (single.magnitude (pattern + 1)).1 = mantissa at *
    generalize (single.magnitude (pattern + 1)).2 = last at *
    have twice : (2 : ℚ) ^ last = 2 * 2 ^ (last - 1) := by
      rw [← zpow_one_add₀ (by norm_num), add_sub_cancel]
    have upperNe := avoids (2 * mantissa + 1) (single.boundary (pattern + 1)) (.inl rfl)
      (by rw [upper, twice]; push_cast; ring) below.ne
    have lowerNe := avoids (2 * mantissa - 1) (single.boundary pattern) (.inr (by omega))
      (by rw [lower, twice, Nat.cast_sub (by omega)]; push_cast; ring) above.ne'
    refine ⟨bounded, Nat.le_of_lt finite, fun under same => ?_, fun _ => ?_⟩
    · obtain rfl : pattern = under := Nat.succ.inj same
      exact .inl (lowLe.lt_of_ne lowerNe.symm)
    · exact .inl (highLe.lt_of_ne upperNe)

end Protobuf.Number
