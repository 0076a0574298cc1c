import Mathlib.Tactic.LinearCombination
import Protobuf.Proofs.Number.Decimal

/-! Multiples of a power of ten near multiples of a power of two.  Two neighbouring fractions around
the ratio of the powers show how near they can come to each other, as long as the multiples are no
larger than the fractions' terms together.
-/

namespace Protobuf.Number

-----------------------------------------------------------------------------------------
-- Neighbouring fractions
-----------------------------------------------------------------------------------------

/-- The fractions `low / lowSteps` and `high / highSteps`. -/
structure Neighbours where
  lowSteps : Nat
  low : Nat
  highSteps : Nat
  high : Nat
deriving DecidableEq, Repr

namespace Neighbours

/-- How far the steps of `a` of the lower fraction come to lie above its number of steps of `b`. -/
def lowGap (i : Neighbours) (a b : Nat) : Int :=
  i.lowSteps * a - i.low * b

/-- How far the steps of `a` of the upper fraction come to lie below its number of steps of `b`. -/
def highGap (i : Neighbours) (a b : Nat) : Int :=
  i.high * b - i.highSteps * a

/-- The fractions lie around `a / b`, and no fraction with smaller terms lies between them. -/
structure Around (i : Neighbours) (a b : Nat) : Prop where
  low : 0 ≤ i.lowGap a b
  high : 0 < i.highGap a b
  adjacent : i.high * i.lowSteps = i.low * i.highSteps + 1

instance (i : Neighbours) (a b : Nat) : Decidable (i.Around a b) :=
  decidable_of_iff
    (0 ≤ i.lowGap a b ∧ 0 < i.highGap a b ∧ i.high * i.lowSteps = i.low * i.highSteps + 1)
    ⟨fun ⟨low, high, adjacent⟩ => ⟨low, high, adjacent⟩,
      fun ⟨low, high, adjacent⟩ => ⟨low, high, adjacent⟩⟩

/-- Numbers of steps below the sum of the terms come no nearer to each other than the lower
fraction, or they are a multiple of the upper one.
-/
theorem Around.near {i : Neighbours} {a b : Nat} (around : i.Around a b) {k m : Nat}
    (positive : 0 < k) (bounded : k < i.lowSteps + i.highSteps)
    : i.lowGap a b ≤ |(k * a - m * b : Int)|
      ∨ ∃ times : Nat, 0 < times ∧ k = times * i.highSteps ∧ m = times * i.high
        ∧ |(k * a - m * b : Int)| = times * i.highGap a b := by
  obtain ⟨low, high, adjacent⟩ := around
  have adjacent : (i.high * i.lowSteps : Int)
    = i.low * i.highSteps + 1 := by exact_mod_cast adjacent
  -- The coordinates of the two numbers in terms of the fractions.
  obtain ⟨c, c_eq⟩ : ∃ c : Int, c = k * i.high - m * i.highSteps := ⟨_, rfl⟩
  obtain ⟨d, d_eq⟩ : ∃ d : Int, d = m * i.lowSteps - k * i.low := ⟨_, rfl⟩
  have first : (k : Int) = c * i.lowSteps + d * i.highSteps := by
    rw [c_eq, d_eq]
    linear_combination -(k : Int) * adjacent
  have second : (m : Int) = c * i.low + d * i.high := by
    rw [c_eq, d_eq]
    linear_combination -(m : Int) * adjacent
  have difference : (k * a - m * b : Int) = c * i.lowGap a b - d * i.highGap a b := by
    rw [first, second, lowGap, highGap]
    ring
  rw [difference]
  have steps : (0 : Int) ≤ i.lowSteps := Int.natCast_nonneg _
  have steps' : (0 : Int) ≤ i.highSteps := Int.natCast_nonneg _
  rcases lt_or_ge 0 c with above | below
  · -- Both coordinates would take the steps over the bound.
    have other : d ≤ 0 := by
      by_contra more
      have one := mul_le_mul_of_nonneg_right (show 1 ≤ c by omega) steps
      have two := mul_le_mul_of_nonneg_right (show 1 ≤ d by omega) steps'
      omega
    refine .inl (le_trans ?_ (le_abs_self _))
    have one := mul_le_mul_of_nonneg_right (show 1 ≤ c by omega) low
    have two := mul_nonneg (show 0 ≤ -d by omega) high.le
    linarith
  have other : 0 < d := by
    by_contra less
    have one := mul_nonneg (show 0 ≤ -c by omega) steps
    have two := mul_nonneg (show 0 ≤ -d by omega) steps'
    linarith
  rcases Int.lt_or_eq_of_le below with below | rfl
  · refine .inl (le_trans ?_ (neg_le_abs _))
    have one := mul_le_mul_of_nonneg_right (show 1 ≤ -c by omega) low
    have two := mul_nonneg other.le high.le
    linarith
  · obtain ⟨times, rfl⟩ := Int.eq_ofNat_of_zero_le other.le
    refine .inr ⟨times, by exact_mod_cast other, by zify; linarith, by zify; linarith, ?_⟩
    rw [zero_mul, zero_sub, abs_neg, abs_of_nonneg (mul_nonneg other.le high.le)]

/-- Fractions around `a / b` with terms of at least the limit together.  Each turn moves one of them
towards the ratio as far as it stays on its side.
-/
def approach (a b limit : Nat) : Nat → Neighbours → Neighbours
  | 0, i => i
  | turns + 1, i =>
      if limit ≤ i.lowSteps + i.highSteps then i
      else
        let left := i.lowSteps * a - i.low * b
        let right := i.high * b - i.highSteps * a
        let room := limit - i.lowSteps - i.highSteps
        if right ≤ left then
          let times := min (left / right) (room / i.highSteps + 1)
          approach a b limit turns
            { i with lowSteps := i.lowSteps + times * i.highSteps, low := i.low + times * i.high }
        else
          let times := min ((right - 1) / left) (room / i.lowSteps + 1)
          approach a b limit turns
            { i with highSteps := i.highSteps + times * i.lowSteps, high := i.high + times * i.low }

end Neighbours

-----------------------------------------------------------------------------------------
-- Grids of powers of ten
-----------------------------------------------------------------------------------------

/-- The least power of ten that is no less than a power of two. -/
def gridPower (exponent : Int) : Int :=
  -(-exponent * 30103 / 100000)

/-- The numerator of a step of the grid in halves of the power of two. -/
def gridStep (exponent : Int) : Nat :=
  10 ^ (gridPower exponent).toNat * 2 ^ (1 - exponent).toNat

/-- The denominator of a step of the grid in halves of the power of two. -/
def gridUnit (exponent : Int) : Nat :=
  10 ^ (-gridPower exponent).toNat * 2 ^ (exponent - 1).toNat

/-- Fractions around a step of the grid, for multiples up to the length of a `float` and one bit. -/
def gridNeighbours (exponent : Int) : Neighbours :=
  Neighbours.approach (gridStep exponent) (gridUnit exponent)
    (2 ^ 25 * gridUnit exponent / gridStep exponent + 1) 64 ⟨1, 0, 0, 1⟩

theorem gridStep_div_gridUnit (exponent : Int)
    : (gridStep exponent / gridUnit exponent : ℚ)
      = 10 ^ gridPower exponent / 2 ^ (exponent - 1) := by
  rw [gridStep, gridUnit, zpow_eq_toNat_div, zpow_eq_toNat_div 2, neg_sub]
  push_cast
  field_simp

theorem gridUnit_pos (exponent : Int)
    : 0 < gridUnit exponent :=
  Nat.mul_pos (Nat.pow_pos (by decide)) (Nat.two_pow_pos _)

/-- The next finer grid is too fine for the exponent. -/
def IsCoarse (exponent : Int) : Prop :=
  2 ^ 29 * gridStep exponent + 20 * gridUnit exponent < 20 * 2 ^ 29 * gridUnit exponent

/-- A multiple of a coarse power of ten that is near to a number of halves is as near on the grid.
-/
theorem exists_gridSteps {exponent power : Int} {k m : Nat} (grid : IsCoarse exponent)
    (positive : 0 < k) (small : m < 2 ^ 25)
    (coarse : (2 : ℚ) ^ exponent - 2 ^ (exponent - 29) ≤ 10 ^ power)
    (near : |(k * 10 ^ power - m * 2 ^ (exponent - 1) : ℚ)| ≤ 2 ^ (exponent - 30))
    : ∃ steps : Nat, 0 < steps ∧ (k * 10 ^ power : ℚ) = steps * 10 ^ gridPower exponent
      ∧ 2 ^ 29 * |(steps * gridStep exponent - m * gridUnit exponent : Int)| ≤ gridUnit exponent
      ∧ steps * gridStep exponent < 2 ^ 25 * gridUnit exponent
      ∧ ((steps * gridStep exponent - m * gridUnit exponent : Int) = 0
        → (k * 10 ^ power : ℚ) = m * 2 ^ (exponent - 1)) := by
  have unit : (0 : ℚ) < gridUnit exponent := by exact_mod_cast gridUnit_pos exponent
  have half : (0 : ℚ) < 2 ^ (exponent - 1) := zpow_pos (by norm_num) _
  have scaled : (gridStep exponent * 2 ^ (exponent - 1) : ℚ)
      = 10 ^ gridPower exponent * gridUnit exponent := by
    have ratio := gridStep_div_gridUnit exponent
    rwa [div_eq_div_iff unit.ne' half.ne'] at ratio
  have shifted (n : Nat) : (2 : ℚ) ^ (exponent - 1 - n) = 2 ^ (exponent - 1) / 2 ^ n := by
    rw [zpow_sub₀ (by norm_num), zpow_natCast]
  rw [show exponent - 30 = exponent - 1 - (29 : Nat) by ring, shifted] at near
  -- A step of the next finer grid is too short.
  have above : gridPower exponent ≤ power := by
    by_contra below
    have finer : (10 : ℚ) ^ power ≤ 10 ^ gridPower exponent / 10 := by
      rw [div_eq_mul_inv, ← zpow_sub_one₀ (by norm_num)]
      exact zpow_le_zpow_right₀ (by norm_num) (by omega)
    have grid : (2 ^ 29 * gridStep exponent + 20 * gridUnit exponent : ℚ)
        < 20 * 2 ^ 29 * gridUnit exponent := by
      exact_mod_cast grid
    have short : (2 ^ 29 * 10 ^ gridPower exponent + 20 * 2 ^ (exponent - 1) : ℚ)
        < 20 * 2 ^ 29 * 2 ^ (exponent - 1) := by
      rw [← mul_lt_mul_iff_of_pos_right unit, add_mul, mul_assoc, ← scaled]
      have := mul_lt_mul_of_pos_right grid half
      linarith
    rw [show exponent - 29 = exponent - 1 - (28 : Nat) by ring, shifted,
      ← sub_add_cancel exponent 1, zpow_add_one₀ (by norm_num), sub_add_cancel] at coarse
    linarith
  obtain ⟨more, rfl⟩ := Int.le.dest above
  have moved : (k * 10 ^ (gridPower exponent + more) : ℚ)
      = (k * 10 ^ more : Nat) * 10 ^ gridPower exponent := by
    rw [zpow_add₀ (by norm_num), zpow_natCast]
    push_cast
    ring
  have positive : 0 < k * 10 ^ more := Nat.mul_pos positive (Nat.pow_pos (by decide))
  rw [moved] at near ⊢
  generalize k * 10 ^ more = steps at *
  have error : ((steps * gridStep exponent - m * gridUnit exponent : Int) : ℚ)
      = (steps * 10 ^ gridPower exponent - m * 2 ^ (exponent - 1))
        * (gridUnit exponent / 2 ^ (exponent - 1)) := by
    push_cast
    field_simp
    rw [sub_mul, mul_assoc, scaled]
    ring
  have close : 2 ^ 29 * |(steps * gridStep exponent - m * gridUnit exponent : Int)|
      ≤ gridUnit exponent := by
    have bound : (2 ^ 29 * |((steps * gridStep exponent - m * gridUnit exponent : Int) : ℚ)|)
        ≤ gridUnit exponent := by
      rw [error, abs_mul, abs_of_pos (div_pos unit half), ← mul_assoc, ← mul_div_assoc,
        div_le_iff₀ half]
      have := mul_le_mul_of_nonneg_right near unit.le
      linarith
    exact_mod_cast bound
  refine ⟨steps, positive, rfl, close, ?_, fun zero => ?_⟩
  · have some := le_abs_self (steps * gridStep exponent - m * gridUnit exponent : Int)
    have most : (m * gridUnit exponent : Int) ≤ (2 ^ 25 - 1) * gridUnit exponent :=
      mul_le_mul_of_nonneg_right (by omega) (Int.natCast_nonneg _)
    have larger : (0 : Int) < gridUnit exponent := by exact_mod_cast gridUnit_pos exponent
    zify
    linarith
  · rw [zero, Int.cast_zero, eq_comm, mul_eq_zero] at error
    exact sub_eq_zero.mp (error.resolve_right (div_pos unit half).ne')

/-- The neighbours of a step of the grid show that no other multiples come within the distance. -/
structure Neighbours.Separates (i : Neighbours) (a b : Nat) : Prop where
  around : i.Around a b
  wide : 2 ^ 25 * b ≤ (i.lowSteps + i.highSteps) * a
  low : b < 2 ^ 29 * i.lowGap a b

instance (i : Neighbours) (a b : Nat) : Decidable (i.Separates a b) :=
  decidable_of_iff
    (i.Around a b ∧ 2 ^ 25 * b ≤ (i.lowSteps + i.highSteps) * a ∧ b < 2 ^ 29 * i.lowGap a b)
    ⟨fun ⟨around, wide, low⟩ => ⟨around, wide, low⟩, fun ⟨around, wide, low⟩ => ⟨around, wide, low⟩⟩

/-- Numbers of steps within the distance are a multiple of the upper fraction. -/
theorem Neighbours.Separates.times {i : Neighbours} {a b : Nat} (h : i.Separates a b)
    {steps m : Nat} (positive : 0 < steps) (close : 2 ^ 29 * |(steps * a - m * b : Int)| ≤ b)
    (bounded : steps * a < 2 ^ 25 * b)
    : ∃ times : Nat, 0 < times ∧ m = times * i.high
      ∧ |(steps * a - m * b : Int)| = times * i.highGap a b := by
  have few : steps < i.lowSteps + i.highSteps :=
    Nat.lt_of_mul_lt_mul_right (Nat.lt_of_lt_of_le bounded h.wide)
  rcases h.around.near (m := m) positive few with far | ⟨times, more, -, same, gap⟩
  · have low := h.low
    linarith
  · exact ⟨times, more, same, gap⟩

/-- A grid whose points are a multiple of the halves or further than the distance from each. -/
def IsApart (exponent : Int) : Prop :=
  gridUnit exponent < 2 ^ 29 * Nat.gcd (gridStep exponent) (gridUnit exponent)
    ∨ (gridNeighbours exponent).Separates (gridStep exponent) (gridUnit exponent)
      ∧ gridUnit exponent
        < 2 ^ 29 * (gridNeighbours exponent).highGap (gridStep exponent) (gridUnit exponent)

instance (exponent : Int) : Decidable (IsCoarse exponent) :=
  inferInstanceAs (Decidable (_ < _))

instance (exponent : Int) : Decidable (IsApart exponent) :=
  inferInstanceAs (Decidable (_ ∨ _))

section

variable {exponent power : Int} {k m : Nat} (grid : IsCoarse exponent) (positive : 0 < k)
  (small : m < 2 ^ 25) (coarse : (2 : ℚ) ^ exponent - 2 ^ (exponent - 29) ≤ 10 ^ power)
  (near : |(k * 10 ^ power - m * 2 ^ (exponent - 1) : ℚ)| ≤ 2 ^ (exponent - 30))

include grid positive small coarse near

/-- A multiple of a coarse power of ten that is near to a number of halves is equal to it. -/
theorem eq_of_isApart (apart : IsApart exponent)
    : (k * 10 ^ power : ℚ) = m * 2 ^ (exponent - 1) := by
  obtain ⟨steps, positive, -, close, bounded, exactly⟩ :=
    exists_gridSteps grid positive small coarse near
  by_contra other
  have some : 0 < |(steps * gridStep exponent - m * gridUnit exponent : Int)| :=
    abs_pos.mpr fun zero => other (exactly zero)
  rcases apart with common | ⟨separates, high⟩
  · -- The distance is a multiple of the common divisor.
    have divides : (Nat.gcd (gridStep exponent) (gridUnit exponent) : Int)
        ∣ |(steps * gridStep exponent - m * gridUnit exponent : Int)| :=
      (dvd_abs _ _).mpr (dvd_sub
        (Dvd.dvd.mul_left (Int.natCast_dvd_natCast.mpr (Nat.gcd_dvd_left _ _)) _)
        (Dvd.dvd.mul_left (Int.natCast_dvd_natCast.mpr (Nat.gcd_dvd_right _ _)) _))
    have least := Int.le_of_dvd some divides
    have common : (gridUnit exponent : Int)
        < 2 ^ 29 * (Nat.gcd (gridStep exponent) (gridUnit exponent) : Int) := by
      exact_mod_cast common
    linarith
  · obtain ⟨times, more, -, gap⟩ := separates.times positive close bounded
    have least := mul_le_mul_of_nonneg_right (show (1 : Int) ≤ times by exact_mod_cast more)
      separates.around.high.le
    linarith

end

/-- The grids of all exponents of `float` numbers are apart but for one. -/
theorem isApart_of_ne
    : ∀ n : Nat, n < 254 → IsCoarse ((n : Int) - 149) ∧ (n ≠ 42 → IsApart ((n : Int) - 149)) := by
  decide +kernel

/-- At the one exponent one number of halves has a multiple of a power of ten next to it. -/
theorem eq_of_near_107 {power : Int} {k m : Nat} (positive : 0 < k) (small : m < 2 ^ 25)
    (coarse : (2 : ℚ) ^ (-107 : Int) - 2 ^ (-107 - 29 : Int) ≤ 10 ^ power)
    (near : |(k * 10 ^ power - m * 2 ^ (-107 - 1 : Int) : ℚ)| ≤ 2 ^ (-107 - 30 : Int))
    : (k * 10 ^ power : ℚ) = m * 2 ^ (-107 - 1 : Int) ∨ m = 22841339 := by
  obtain ⟨steps, positive, -, close, bounded, exactly⟩ :=
    exists_gridSteps (isApart_of_ne 42 (by decide)).1 positive small coarse near
  have separates : (gridNeighbours (-107)).Separates (gridStep (-107)) (gridUnit (-107)) := by
    decide +kernel
  have upper : (gridNeighbours (-107)).high = 22841339 := by decide +kernel
  obtain ⟨times, more, same, -⟩ := separates.times positive close bounded
  rw [upper] at same
  exact .inr (by omega)

end Protobuf.Number
