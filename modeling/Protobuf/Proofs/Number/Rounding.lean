import Mathlib.Algebra.Order.Field.Power
import Mathlib.Tactic.FieldSimp
import Mathlib.Tactic.Linarith
import Mathlib.Tactic.Positivity
import Mathlib.Tactic.Ring
import Protobuf.Number.Decimal

/-! Rounding to the nearest number of a binary format.  The finite magnitudes are multiples of the
least positive one in the order of their patterns, so the numbers that round to a pattern lie
between the points halfway to its neighbours.
-/

namespace Protobuf.Number

/-- A power of an integer is a ratio of powers, one of which is one. -/
theorem zpow_eq_toNat_div (b : ℚ) (e : Int)
    : b ^ e = b ^ e.toNat / b ^ (-e).toNat := by
  rcases Int.le_total 0 e with above | below
  · rw [Int.toNat_of_nonpos (by omega : -e ≤ 0), pow_zero, div_one, ← zpow_natCast,
      Int.toNat_of_nonneg above]
  · rw [Int.toNat_of_nonpos below, pow_zero, one_div, ← zpow_natCast,
      Int.toNat_of_nonneg (by omega), zpow_neg, inv_inv]

namespace Format

-----------------------------------------------------------------------------------------
-- The magnitudes in order
-----------------------------------------------------------------------------------------

/-- How many places the mantissa of a pattern is shifted to the left. -/
def places (f : Format) (pattern : Nat) : Nat :=
  pattern / 2 ^ f.fractionBits - 1

/-- The magnitude of a pattern as a multiple of the least positive one.  Patterns from infinity on
continue the order.
-/
def units (f : Format) (pattern : Nat) : Nat :=
  (f.magnitude pattern).1 * 2 ^ f.places pattern

/-- The number that a pattern below infinity stands for. -/
def real (f : Format) (pattern : Nat) : ℚ :=
  f.units pattern * 2 ^ f.minExponent

/-- The number halfway between a pattern and the next. -/
def boundary (f : Format) (pattern : Nat) : ℚ :=
  (f.real pattern + f.real (pattern + 1)) / 2

/-- The parts of a pattern: the mantissa is short only where it is not shifted. -/
theorem magnitude_parts (f : Format) (pattern : Nat)
    : pattern = f.places pattern * 2 ^ f.fractionBits + (f.magnitude pattern).1
      ∧ (f.places pattern = 0 ∨ 2 ^ f.fractionBits ≤ (f.magnitude pattern).1)
      ∧ (f.magnitude pattern).1 < 2 ^ (f.fractionBits + 1)
      ∧ (f.magnitude pattern).2 = f.minExponent + f.places pattern := by
  have whole := Nat.div_add_mod pattern (2 ^ f.fractionBits)
  have small := Nat.mod_lt pattern (Nat.two_pow_pos f.fractionBits)
  rw [Nat.pow_succ, places]
  simp only [magnitude]
  generalize pattern / 2 ^ f.fractionBits = biased at whole ⊢
  generalize pattern % 2 ^ f.fractionBits = fraction at whole small ⊢
  generalize 2 ^ f.fractionBits = one at whole small ⊢
  cases biased with
  | zero =>
      rw [if_pos rfl]
      refine ⟨by simp only [Nat.mul_zero] at whole; omega, .inl rfl, by omega, ?_⟩
      simp
  | succ places =>
      rw [if_neg places.succ_ne_zero, Nat.add_sub_cancel]
      refine ⟨?_, .inr (Nat.le_add_right _ _), by omega, ?_⟩
      · rw [← whole, Nat.mul_comm one, Nat.succ_mul]
        omega
      · push_cast
        ring

/-- A mantissa that is shifted only if it is long, at most one bit too long. -/
theorem units_of_parts (f : Format) {places mantissa : Nat}
    (long : places = 0 ∨ 2 ^ f.fractionBits ≤ mantissa)
    (short : mantissa ≤ 2 ^ (f.fractionBits + 1))
    : f.units (places * 2 ^ f.fractionBits + mantissa) = mantissa * 2 ^ places := by
  have positive := Nat.two_pow_pos f.fractionBits
  rw [Nat.pow_succ] at short
  simp only [units, Format.places, magnitude]
  generalize 2 ^ f.fractionBits = one at long short positive ⊢
  rcases Nat.lt_or_ge mantissa one with below | above
  · obtain rfl := long.resolve_right (Nat.not_le.mpr below)
    simp [Nat.div_eq_of_lt below, Nat.mod_eq_of_lt below]
  obtain ⟨fraction, rfl⟩ := Nat.exists_eq_add_of_le above
  rcases Nat.lt_or_ge fraction one with below | above
  · have split : places * one + (one + fraction) = one * (places + 1) + fraction := by ring
    rw [split, Nat.mul_add_div positive, Nat.mul_add_mod, Nat.div_eq_of_lt below,
      Nat.mod_eq_of_lt below]
    simp
  · obtain rfl : fraction = one := by omega
    have split : places * fraction + (fraction + fraction) = fraction * (places + 2) := by ring
    rw [split, Nat.mul_div_cancel_left _ positive, Nat.mul_mod_right]
    simp only [Nat.add_eq_zero_iff, OfNat.ofNat_ne_zero, and_false, if_false, Nat.add_zero,
      Nat.add_succ_sub_one, Nat.pow_succ]
    ring

/-- The distance to the next pattern. -/
theorem units_succ (f : Format) (pattern : Nat)
    : f.units (pattern + 1) = f.units pattern + 2 ^ f.places pattern := by
  obtain ⟨whole, long, short, -⟩ := f.magnitude_parts pattern
  have next : pattern + 1
      = f.places pattern * 2 ^ f.fractionBits + ((f.magnitude pattern).1 + 1) := by omega
  rw [next, f.units_of_parts (long.imp_right Nat.le_succ_of_le) short, Nat.succ_mul, units]

theorem units_strictMono (f : Format)
    : StrictMono f.units :=
  strictMono_nat_of_lt_succ fun pattern => by
    rw [units_succ]
    exact Nat.lt_add_of_pos_right (Nat.two_pow_pos _)

@[simp]
theorem units_zero (f : Format)
    : f.units 0 = 0 := by
  have parts := f.units_of_parts (.inl rfl) (Nat.zero_le (2 ^ (f.fractionBits + 1)))
  simpa using parts

theorem unit_pos (f : Format)
    : (0 : ℚ) < 2 ^ f.minExponent :=
  zpow_pos (by norm_num) _

theorem real_strictMono (f : Format)
    : StrictMono f.real := by
  intro a b less
  exact mul_lt_mul_of_pos_right (by exact_mod_cast f.units_strictMono less) f.unit_pos

@[simp]
theorem real_zero (f : Format)
    : f.real 0 = 0 := by
  simp [real]

theorem boundary_strictMono (f : Format)
    : StrictMono f.boundary := by
  intro a b less
  have first := f.real_strictMono less
  have second := f.real_strictMono (Nat.succ_lt_succ less)
  simp only [boundary]
  linarith

theorem real_lt_boundary (f : Format) (pattern : Nat)
    : f.real pattern < f.boundary pattern := by
  have next := f.real_strictMono pattern.lt_succ_self
  simp only [boundary]
  linarith

theorem boundary_lt_real (f : Format) (pattern : Nat)
    : f.boundary pattern < f.real (pattern + 1) := by
  have next := f.real_strictMono pattern.lt_succ_self
  simp only [boundary]
  linarith

/-- The number of a pattern by its mantissa and exponent. -/
theorem real_eq_magnitude (f : Format) (pattern : Nat)
    : f.real pattern = (f.magnitude pattern).1 * 2 ^ (f.magnitude pattern).2 := by
  rw [(f.magnitude_parts pattern).2.2.2, zpow_add₀ (by norm_num), zpow_natCast, real, units]
  push_cast
  ring

/-- The mantissa is even exactly if the pattern is. -/
theorem mod_two_magnitude {f : Format} (fraction : 0 < f.fractionBits) (pattern : Nat)
    : (f.magnitude pattern).1 % 2 = pattern % 2 := by
  obtain ⟨whole, -⟩ := f.magnitude_parts pattern
  obtain ⟨bits, same⟩ := Nat.exists_eq_add_of_le' fraction
  have even : f.places pattern * 2 ^ f.fractionBits = 2 * (f.places pattern * 2 ^ bits) := by
    rw [same, Nat.pow_succ]
    ring
  omega

/-- The mantissa of a positive number is positive. -/
theorem magnitude_pos {f : Format} {pattern : Nat} (positive : 0 < pattern)
    : 0 < (f.magnitude pattern).1 := by
  obtain ⟨whole, long, -⟩ := f.magnitude_parts pattern
  have one := Nat.two_pow_pos f.fractionBits
  rcases long with zero | long
  · rw [zero, Nat.zero_mul] at whole
    omega
  · omega

/-- A number is halfway between a pattern and the next. -/
theorem boundary_eq (f : Format) (pattern : Nat)
    : f.boundary pattern = f.real pattern + 2 ^ (f.magnitude pattern).2 / 2 := by
  rw [boundary, real, real, units_succ, (f.magnitude_parts pattern).2.2.2,
    zpow_add₀ (by norm_num), zpow_natCast]
  push_cast
  ring

/-- Below a power of two the numbers lie twice as dense. -/
theorem places_pred {f : Format} (pattern : Nat)
    : f.places (pattern + 1) = f.places pattern
        + if (f.magnitude (pattern + 1)).1 = 2 ^ f.fractionBits ∧ 0 < f.places (pattern + 1) then 1
          else 0 := by
  obtain ⟨whole, long, short, -⟩ := f.magnitude_parts (pattern + 1)
  rw [Nat.pow_succ] at short
  have positive := Nat.two_pow_pos f.fractionBits
  generalize (f.magnitude (pattern + 1)).1 = mantissa at *
  rw [show f.places pattern = pattern / 2 ^ f.fractionBits - 1 from rfl]
  generalize f.places (pattern + 1) = places at *
  generalize 2 ^ f.fractionBits = one at *
  split
  · rename_i dense
    obtain ⟨rfl, above⟩ := dense
    have below : pattern = mantissa * places + (mantissa - 1) := by
      rw [Nat.mul_comm]
      omega
    rw [below, Nat.mul_add_div positive, Nat.div_eq_of_lt (by omega)]
    omega
  · rename_i even
    rcases Nat.eq_zero_or_pos places with rfl | above
    · have small : pattern / one < 2 := Nat.div_lt_of_lt_mul (by omega)
      omega
    · have long := long.resolve_left (by omega)
      have more : one ≠ mantissa := fun same => even ⟨same.symm, above⟩
      have below : pattern = one * (places + 1) + (mantissa - 1 - one) := by
        rw [Nat.mul_succ, Nat.mul_comm]
        omega
      rw [below, Nat.mul_add_div positive, Nat.div_eq_of_lt (by omega)]
      omega

/-- The way back from a pattern to halfway below it: a quarter of its last place where it begins a
denser range, and half of it elsewhere.
-/
theorem boundary_pred (f : Format) (pattern : Nat)
    : let parts := f.magnitude (pattern + 1)
      f.boundary pattern = f.real (pattern + 1)
        - 2 ^ parts.2 / if parts.1 = 2 ^ f.fractionBits
          ∧ f.minExponent < parts.2 then 4 else 2 := by
  intro parts
  have exponent : parts.2 = f.minExponent + f.places (pattern + 1) :=
    (f.magnitude_parts (pattern + 1)).2.2.2
  have step : f.real (pattern + 1) = f.real pattern + 2 ^ (f.minExponent + f.places pattern) := by
    rw [real, real, units_succ, zpow_add₀ (by norm_num), zpow_natCast]
    push_cast
    ring
  have last := places_pred (f := f) pattern
  rw [boundary, step]
  split
  · rename_i dense
    rw [if_pos ⟨dense.1, by omega⟩] at last
    have twice : (2 : ℚ) ^ (f.minExponent + ((f.places pattern + 1 : Nat) : Int))
        = 2 ^ (f.minExponent + f.places pattern) * 2 := by
      rw [Nat.cast_succ, ← add_assoc, zpow_add_one₀ (by norm_num)]
    rw [exponent, last, twice]
    ring
  · rename_i even
    rw [if_neg fun dense => even ⟨dense.1, by omega⟩] at last
    rw [exponent, show f.places (pattern + 1) = f.places pattern from last]
    ring

-----------------------------------------------------------------------------------------
-- The nearest magnitude
-----------------------------------------------------------------------------------------

/-- The pattern is the nearest to the number, and the even one of two that are equally near.  From
halfway behind the greatest finite one on, numbers round to infinity.
-/
structure IsNearest (f : Format) (x : ℚ) (pattern : Nat) : Prop where
  bounded : pattern ≤ f.infinity
  above
    : ∀ below, pattern = below + 1
      → f.boundary below < x ∨ f.boundary below = x ∧ pattern % 2 = 0
  below : pattern < f.infinity → x < f.boundary pattern ∨ x = f.boundary pattern ∧ pattern % 2 = 0

variable {f : Format} {x y : ℚ} {a b : Nat}

/-- Rounding keeps the order. -/
theorem IsNearest.le (first : f.IsNearest x a) (second : f.IsNearest y b) (ordered : x ≤ y)
    : a ≤ b := by
  by_contra more
  obtain ⟨under, rfl⟩ : ∃ under, a = under + 1 := ⟨a - 1, by omega⟩
  have low := first.above under rfl
  have high := second.below (by have := first.bounded; omega)
  have chain := f.boundary_strictMono.monotone (show b ≤ under by omega)
  rcases low with low | ⟨low, even⟩
  · rcases high with high | ⟨high, -⟩ <;> linarith
  rcases high with high | ⟨high, even'⟩
  · linarith
  -- Both patterns are even and have one boundary between them.
  have same : b = under := f.boundary_strictMono.injective (by linarith)
  omega

theorem IsNearest.unique (first : f.IsNearest x a) (second : f.IsNearest x b)
    : a = b :=
  Nat.le_antisymm (first.le second le_rfl) (second.le first le_rfl)

/-- A number of the format rounds to itself. -/
theorem isNearest_real (f : Format) {pattern : Nat} (bounded : pattern ≤ f.infinity)
    : f.IsNearest (f.real pattern) pattern where
  bounded := bounded
  above below same := .inl (by rw [same]; exact f.boundary_lt_real below)
  below _ := .inl (f.real_lt_boundary pattern)

/-- What rounds to a number behind the greatest finite one rounds to infinity. -/
theorem IsNearest.clip {pattern : Nat}
    (above
      : ∀ below, pattern = below + 1
        → f.boundary below < x ∨ f.boundary below = x ∧ pattern % 2 = 0)
    (below : x < f.boundary pattern ∨ x = f.boundary pattern ∧ pattern % 2 = 0)
    : f.IsNearest x (min f.infinity pattern) := by
  rcases Nat.le_total pattern f.infinity with inside | outside
  · rw [Nat.min_eq_right inside]
    exact ⟨inside, above, fun _ => below⟩
  · rw [Nat.min_eq_left outside]
    refine ⟨le_rfl, fun under same => ?_, fun less => absurd less (Nat.lt_irrefl _)⟩
    rcases Nat.eq_or_lt_of_le outside with rfl | outside
    · exact above under same
    have less := f.boundary_strictMono (show under < pattern - 1 by omega)
    rcases above (pattern - 1) (by omega) with low | ⟨low, -⟩ <;> exact .inl (by linarith)

-----------------------------------------------------------------------------------------
-- Rounding of ratios
-----------------------------------------------------------------------------------------

/-- The quotient is rounded by at most one half, and by one half to an even number only. -/
theorem divideToEven_spec (numerator : Nat) {denominator : Nat} (positive : 0 < denominator)
    : let quotient := divideToEven numerator denominator
      (2 * quotient * denominator < 2 * numerator + denominator
        ∨ 2 * quotient * denominator = 2 * numerator + denominator ∧ quotient % 2 = 0)
      ∧ (2 * numerator < (2 * quotient + 1) * denominator
        ∨ 2 * numerator = (2 * quotient + 1) * denominator ∧ quotient % 2 = 0) := by
  have whole := Nat.div_add_mod numerator denominator
  have small := Nat.mod_lt numerator positive
  simp only [divideToEven]
  generalize numerator / denominator = quotient at whole ⊢
  generalize numerator % denominator = rest at whole small ⊢
  have product : denominator * quotient = quotient * denominator := Nat.mul_comm _ _
  split
  · simp only [Nat.add_mul, Nat.mul_assoc, one_mul]
    omega
  split
  · simp only [Nat.add_mul, Nat.mul_add, Nat.mul_assoc, one_mul, mul_one]
    omega
  split
  · simp only [Nat.add_mul, Nat.mul_assoc, one_mul]
    omega
  · simp only [Nat.add_mul, Nat.mul_add, Nat.mul_assoc, one_mul, mul_one]
    omega

/-- The same about the ratio as a rational number. -/
theorem divideToEven_cast (numerator : Nat) {denominator : Nat} (positive : 0 < denominator)
    : let quotient := divideToEven numerator denominator
      let ratio : ℚ := numerator / denominator
      ((quotient : ℚ) - 1 / 2 < ratio ∨ (quotient : ℚ) - 1 / 2 = ratio ∧ quotient % 2 = 0)
      ∧ (ratio < quotient + 1 / 2 ∨ ratio = quotient + 1 / 2 ∧ quotient % 2 = 0) := by
  intro quotient ratio
  obtain ⟨low, high⟩ := divideToEven_spec numerator positive
  have bottom : (0 : ℚ) < denominator := by exact_mod_cast positive
  refine ⟨low.imp (fun low => ?_) (And.imp_left fun low => ?_),
    high.imp (fun high => ?_) (And.imp_left fun high => ?_)⟩
  · have low : (2 * quotient * denominator : ℚ) < 2 * numerator + denominator := by
      exact_mod_cast low
    exact (lt_div_iff₀ bottom).mpr (by linarith)
  · have low : (2 * quotient * denominator : ℚ) = 2 * numerator + denominator := by
      exact_mod_cast low
    exact (eq_div_iff bottom.ne').mpr (by linarith)
  · have high : (2 * numerator : ℚ) < (2 * quotient + 1) * denominator := by exact_mod_cast high
    exact (div_lt_iff₀ bottom).mpr (by linarith)
  · have high : (2 * numerator : ℚ) = (2 * quotient + 1) * denominator := by exact_mod_cast high
    exact (div_eq_iff bottom.ne').mpr (by linarith)

/-- The number of a pattern that is given by its parts. -/
theorem real_of_parts (f : Format) {places mantissa : Nat}
    (long : places = 0 ∨ 2 ^ f.fractionBits ≤ mantissa)
    (short : mantissa ≤ 2 ^ (f.fractionBits + 1))
    : f.real (places * 2 ^ f.fractionBits + mantissa)
      = mantissa * 2 ^ (f.minExponent + places) := by
  rw [real, f.units_of_parts long short, zpow_add₀ (by norm_num), zpow_natCast]
  push_cast
  ring

theorem mod_two_of_parts {f : Format} (fraction : 0 < f.fractionBits) (places mantissa : Nat)
    : (places * 2 ^ f.fractionBits + mantissa) % 2 = mantissa % 2 := by
  obtain ⟨bits, same⟩ := Nat.exists_eq_add_of_le' fraction
  rw [same, Nat.pow_succ, ← Nat.mul_assoc, Nat.add_comm, Nat.add_mul_mod_self_right]

/-- A mantissa that is rounded at an exponent where it has the right length gives the nearest
pattern.
-/
theorem isNearest_assemble {f : Format} (fraction : 0 < f.fractionBits) {x : ℚ} {top bottom : Nat}
    {exponent : Int} (positive : 0 < bottom) (shifted : f.minExponent ≤ exponent)
    (scaled : (top / bottom : ℚ) = x / 2 ^ exponent)
    (long : exponent = f.minExponent ∨ 2 ^ f.fractionBits ≤ (top / bottom : ℚ))
    (short : (top / bottom : ℚ) < 2 ^ (f.fractionBits + 1))
    : f.IsNearest x (f.assemble (divideToEven top bottom) exponent) := by
  obtain ⟨low, high⟩ := divideToEven_cast top positive
  obtain ⟨places, rfl⟩ := Int.le.dest shifted
  have unit : (0 : ℚ) < 2 ^ (f.minExponent + places) := zpow_pos (by norm_num) _
  have number : x = top / bottom * 2 ^ (f.minExponent + places) := by
    rw [scaled, div_mul_cancel₀ _ unit.ne']
  have shift : (f.minExponent + places - f.minExponent).toNat = places := by omega
  rw [assemble, shift]
  rw [number]
  generalize (top / bottom : ℚ) = ratio at *
  generalize divideToEven top bottom = mantissa at *
  have fits : mantissa ≤ 2 ^ (f.fractionBits + 1) := by
    refine Nat.le_of_lt_succ ?_
    have less : (mantissa : ℚ) < 2 ^ (f.fractionBits + 1) + 1 := by
      rcases low with low | ⟨low, -⟩ <;> linarith
    exact_mod_cast less
  have full (shifted : places ≠ 0) : (2 : ℚ) ^ f.fractionBits ≤ ratio :=
    long.resolve_left (by omega)
  have filled : places = 0 ∨ 2 ^ f.fractionBits ≤ mantissa := by
    refine Classical.or_iff_not_imp_left.mpr fun shifted => Nat.le_of_lt_succ ?_
    have less : (2 : ℚ) ^ f.fractionBits < mantissa + 1 := by
      have := full shifted
      rcases high with high | ⟨high, -⟩ <;> linarith
    exact_mod_cast less
  have here := f.real_of_parts filled fits
  have parity := mod_two_of_parts fraction places mantissa
  refine IsNearest.clip (fun below same => ?_) ?_
  · -- The pattern below has the same exponent, or the number is not below this pattern's.
    by_cases inside : 0 < mantissa ∧ (places = 0 ∨ 2 ^ f.fractionBits ≤ mantissa - 1)
    · obtain ⟨under, rfl⟩ : ∃ under, mantissa = under + 1 := ⟨mantissa - 1, by omega⟩
      rw [Nat.add_sub_cancel] at inside
      obtain rfl : below = places * 2 ^ f.fractionBits + under := by omega
      have there := f.real_of_parts inside.2 (by omega)
      have halfway : f.boundary (places * 2 ^ f.fractionBits + under)
          = (((under + 1 : Nat) : ℚ) - 1 / 2) * 2 ^ (f.minExponent + places) := by
        rw [boundary, there, Nat.add_assoc, here]
        push_cast
        ring
      rw [halfway, parity]
      exact low.imp (mul_lt_mul_of_pos_right · unit) (And.imp_left fun low => by rw [low])
    · have first : (mantissa : ℚ) ≤ ratio := by
        have least : places ≠ 0 ∧ mantissa = 2 ^ f.fractionBits := by
          have := Nat.two_pow_pos f.fractionBits
          rcases filled with rfl | filled <;> omega
        have := full least.1
        rw [least.2]
        exact_mod_cast this
      refine .inl ((f.boundary_lt_real below).trans_le ?_)
      rw [← same, here]
      exact mul_le_mul_of_nonneg_right first unit.le
  · rcases Nat.lt_or_eq_of_le fits with less | last
    · have there := f.real_of_parts (filled.imp_right Nat.le_succ_of_le) less
      have halfway : f.boundary (places * 2 ^ f.fractionBits + mantissa)
          = ((mantissa : ℚ) + 1 / 2) * 2 ^ (f.minExponent + places) := by
        rw [boundary, here, Nat.add_assoc, there]
        push_cast
        ring
      rw [halfway, parity]
      exact high.imp (mul_lt_mul_of_pos_right · unit) (And.imp_left fun high => by rw [high])
    · refine .inl (lt_of_le_of_lt ?_ (f.real_lt_boundary _))
      rw [here, last]
      exact mul_le_mul_of_nonneg_right (by exact_mod_cast short.le) unit.le

/-- Numerator and denominator at an exponent. -/
theorem scaled_ratio (numerator denominator : Nat) (exponent : Int)
    : (((numerator * 2 ^ (-exponent).toNat : Nat) : ℚ) / (denominator * 2 ^ exponent.toNat : Nat))
      = numerator / denominator / 2 ^ exponent := by
  rw [zpow_eq_toNat_div]
  push_cast
  rw [div_div_div_eq, mul_comm]

/-- A ratio by the lengths of its parts. -/
theorem ratio_bounds {numerator denominator : Nat} (first : 0 < numerator)
    (second : 0 < denominator)
    : (2 : ℚ) ^ ((numerator.log2 : Int) - denominator.log2 - 1) < numerator / denominator
      ∧ (numerator / denominator : ℚ) < 2 ^ ((numerator.log2 : Int) - denominator.log2 + 1) := by
  have low := Nat.log2_self_le first.ne'
  have high := Nat.lt_log2_self (n := numerator)
  have low' := Nat.log2_self_le second.ne'
  have high' := Nat.lt_log2_self (n := denominator)
  generalize numerator.log2 = a at low high ⊢
  generalize denominator.log2 = b at low' high' ⊢
  have top : (2 : ℚ) ^ a ≤ numerator := by exact_mod_cast low
  have top' : (numerator : ℚ) < 2 ^ (a + 1) := by exact_mod_cast high
  have bottom : (2 : ℚ) ^ b ≤ denominator := by exact_mod_cast low'
  have bottom' : (denominator : ℚ) < 2 ^ (b + 1) := by exact_mod_cast high'
  have positive : (0 : ℚ) < denominator := by exact_mod_cast second
  have power (a b : Nat) : (2 : ℚ) ^ ((a : Int) - b) = 2 ^ a / 2 ^ b := by
    rw [zpow_sub₀ (by norm_num), zpow_natCast, zpow_natCast]
  constructor
  · rw [show (a : Int) - b - 1 = (a : Int) - (b + 1 : Nat) by push_cast; ring, power]
    exact div_lt_div₀' top bottom' (by positivity) positive
  · rw [show (a : Int) - b + 1 = ((a + 1 : Nat) : Int) - b by push_cast; ring, power]
    exact div_lt_div₀ top' bottom (by positivity) (by positivity)

/-- The ratio of positive numbers is rounded to the nearest magnitude. -/
theorem isNearest_ofRatio {f : Format} (fraction : 0 < f.fractionBits) {numerator denominator : Nat}
    (first : 0 < numerator) (second : 0 < denominator)
    : f.IsNearest (numerator / denominator) (f.ofRatio numerator denominator) := by
  obtain ⟨low, high⟩ := ratio_bounds first second
  have scaled := scaled_ratio numerator denominator
  have positive (exponent : Int) : 0 < denominator * 2 ^ exponent.toNat :=
    Nat.mul_pos second (Nat.two_pow_pos _)
  have unit (exponent : Int) : (0 : ℚ) < 2 ^ exponent := zpow_pos (by norm_num) _
  have power (a : Int) (n : Nat) : (2 : ℚ) ^ (a + n) = 2 ^ n * 2 ^ a := by
    rw [zpow_add₀ (by norm_num), zpow_natCast, mul_comm]
  unfold ofRatio
  extract_lets scaled' guess quotient start exponent
  -- The exponent at which the quotient has the length of a mantissa.
  have fits : (2 : ℚ) ^ f.fractionBits * 2 ^ start ≤ numerator / denominator
      ∧ (numerator / denominator : ℚ) < 2 ^ (f.fractionBits + 1) * 2 ^ start := by
    have short := Nat.div_lt_iff_lt_mul (x := (scaled' guess).1) (y := 2 ^ f.fractionBits)
      (positive guess)
    have cast : (scaled' guess).1 < 2 ^ f.fractionBits * (scaled' guess).2
        ↔ (numerator / denominator : ℚ) < 2 ^ f.fractionBits * 2 ^ guess := by
      have bottom : (0 : ℚ) < ((scaled' guess).2 : Nat) := by exact_mod_cast positive guess
      rw [← div_lt_iff₀ (unit guess), ← scaled guess, div_lt_iff₀ bottom]
      norm_cast
    rw [← power, ← power]
    by_cases less : quotient < 2 ^ f.fractionBits
    · have start_eq : start = guess - 1 := if_pos less
      have less := cast.mp (short.mp less)
      rw [← power] at less
      rw [start_eq]
      refine ⟨le_trans (zpow_le_zpow_right₀ (by norm_num) ?_) low.le, ?_⟩
      · simp only [guess]
        omega
      · rwa [show guess - 1 + ((f.fractionBits + 1 : Nat) : Int) = guess + f.fractionBits by
          push_cast; ring]
    · have start_eq : start = guess := if_neg less
      have more := not_lt.mp fun other => less (short.mpr (cast.mpr other))
      rw [← power] at more
      rw [start_eq]
      refine ⟨more, high.trans_le (zpow_le_zpow_right₀ (by norm_num) ?_)⟩
      simp only [guess]
      push_cast
      omega
  refine isNearest_assemble fraction (positive exponent) ?_ (scaled exponent) ?_ ?_
  · simp only [exponent]
    split <;> omega
  · rw [scaled exponent]
    by_cases low : start < f.minExponent
    · exact .inl (if_pos low)
    · rw [show exponent = start from if_neg low]
      exact .inr ((le_div_iff₀ (unit start)).mpr fits.1)
  · rw [scaled exponent, div_lt_iff₀ (unit exponent)]
    refine fits.2.trans_le (mul_le_mul_of_nonneg_left ?_ (by positivity))
    refine zpow_le_zpow_right₀ (by norm_num) ?_
    simp only [exponent]
    split <;> omega

end Format

end Protobuf.Number
