import Protobuf.Proofs.Number.Decimal

/-! The shortest decimal of a number rounds to it.  The interval that is searched holds the numbers
that are nearest to a magnitude, and the search ends in it because a grid that is finer than the
interval has a point inside.
-/

namespace Protobuf.Number

namespace RoundingInterval

-----------------------------------------------------------------------------------------
-- Points of a grid inside an interval
-----------------------------------------------------------------------------------------

/-- One of the ends, or the middle, as a rational number. -/
def point (i : RoundingInterval) (numerator : Nat) : ℚ :=
  numerator / i.denominator

/-- One number is below another, or the same if the ends are inside. -/
def Before {α : Type} [LinearOrder α] (i : RoundingInterval) (a b : α) : Prop :=
  if i.closed then a ≤ b else a < b

/-- The number lies between the ends. -/
def Contains (i : RoundingInterval) (x : ℚ) : Prop :=
  i.Before (i.point i.low) x ∧ i.Before x (i.point i.high)

section

variable {α : Type} [LinearOrder α] {i : RoundingInterval} {a b : α}

theorem Before.le (h : i.Before a b)
    : a ≤ b := by
  unfold Before at h
  split at h
  · exact h
  · exact h.le

theorem Before.lt_or (h : i.Before a b)
    : a < b ∨ a = b ∧ i.closed = true := by
  rcases h.le.lt_or_eq with less | same
  · exact .inl less
  · refine .inr ⟨same, ?_⟩
    unfold Before at h
    split at h
    · assumption
    · exact absurd same h.ne

theorem before_of_lt (h : a < b)
    : i.Before a b := by
  unfold Before
  split
  · exact h.le
  · exact h

theorem le_of_not_before (h : ¬ i.Before a b)
    : b ≤ a :=
  not_lt.mp fun less => h (before_of_lt less)

end

/-- Numbers are compared as their multiples are. -/
theorem before_cast {i : RoundingInterval} {scale x y : ℚ} (positive : 0 < scale) {a b : Nat}
    (left : (a : ℚ) = x * scale) (right : (b : ℚ) = y * scale)
    : i.Before a b ↔ i.Before x y := by
  unfold Before
  split
  · rw [← mul_le_mul_iff_of_pos_right positive, ← left, ← right, Nat.cast_le]
  · rw [← mul_lt_mul_iff_of_pos_right positive, ← left, ← right, Nat.cast_lt]

/-- The middle is inside, and the denominator is not zero. -/
structure IsProper (i : RoundingInterval) : Prop where
  positive : 0 < i.denominator
  left : i.low < i.middle
  right : i.middle < i.high

/-- Points and multiples of a power of ten at one denominator. -/
theorem IsProper.scaled {i : RoundingInterval} (proper : i.IsProper) (power : Int)
    : ∃ scale : ℚ, 0 < scale
      ∧ (∀ a : Nat, ((a * 10 ^ (-power).toNat : Nat) : ℚ) = i.point a * scale)
      ∧ ((i.denominator * 10 ^ power.toNat : Nat) : ℚ) = 10 ^ power * scale := by
  have bottom : (0 : ℚ) < i.denominator := by exact_mod_cast proper.positive
  refine ⟨i.denominator * 10 ^ (-power).toNat, by positivity, fun a => ?_, ?_⟩
  · rw [point]
    push_cast
    field_simp
  · rw [zpow_eq_toNat_div]
    push_cast
    field_simp

/-- What is chosen of the two multiples around the middle. -/
theorem nearestMultiple_cases (i : RoundingInterval) (power : Int)
    : let up := 10 ^ (-power).toNat
      let unit := i.denominator * 10 ^ power.toNat
      let below := i.middle * up / unit
      let rest := i.middle * up % unit
      (i.nearestMultiple? power = some below ∧ i.Before (i.low * up) (below * unit)
        ∧ (rest = 0 ∨ ¬ i.Before ((below + 1) * unit) (i.high * up) ∨ 2 * rest < unit))
      ∨ (i.nearestMultiple? power = some (below + 1)
        ∧ i.Before ((below + 1) * unit) (i.high * up)
        ∧ (¬ i.Before (i.low * up) (below * unit) ∨ unit ≤ 2 * rest))
      ∨ (i.nearestMultiple? power = none ∧ ¬ i.Before (i.low * up) (below * unit)
        ∧ ¬ i.Before ((below + 1) * unit) (i.high * up)) := by
  unfold nearestMultiple? Before
  extract_lets up unit below rest belowFits aboveFits
  change (_ ∧ belowFits ∧ (_ ∨ ¬ aboveFits ∨ _)) ∨ (_ ∧ aboveFits ∧ (¬ belowFits ∨ _))
    ∨ (_ ∧ ¬ belowFits ∧ ¬ aboveFits)
  by_cases first : belowFits <;> by_cases second : aboveFits
  · by_cases exactly : rest = 0
    · exact .inl ⟨if_pos ⟨first, .inl exactly⟩, first, .inl exactly⟩
    have other : ¬ (belowFits ∧ (rest = 0 ∨ ¬ aboveFits)) := fun h => h.2.elim exactly (· second)
    by_cases upper : unit ≤ 2 * rest
    · refine .inr (.inl ⟨?_, second, .inr upper⟩)
      exact (if_neg other).trans ((if_pos ⟨first, second⟩).trans (if_pos upper))
    · refine .inl ⟨?_, first, .inr (.inr (Nat.lt_of_not_le upper))⟩
      exact (if_neg other).trans ((if_pos ⟨first, second⟩).trans (if_neg upper))
  · exact .inl ⟨if_pos ⟨first, .inr second⟩, first, .inr (.inl second)⟩
  · refine .inr (.inl ⟨?_, second, .inl first⟩)
    exact (if_neg fun h => first h.1).trans ((if_neg fun h => first h.1).trans (if_pos second))
  · refine .inr (.inr ⟨?_, first, second⟩)
    exact (if_neg fun h => first h.1).trans ((if_neg fun h => first h.1).trans (if_neg second))

/-- The two multiples around the middle as rational numbers. -/
theorem IsProper.around {i : RoundingInterval} (proper : i.IsProper) (power : Int)
    : let up := 10 ^ (-power).toNat
      let unit := i.denominator * 10 ^ power.toNat
      let below := i.middle * up / unit
      let rest := i.middle * up % unit
      let least : ℚ := below * 10 ^ power
      (i.Before (i.low * up) (below * unit) ↔ i.Before (i.point i.low) least)
      ∧ (i.Before ((below + 1) * unit) (i.high * up)
        ↔ i.Before (least + 10 ^ power) (i.point i.high))
      ∧ least ≤ i.point i.middle ∧ i.point i.middle < least + 10 ^ power
      ∧ (rest = 0 → least = i.point i.middle)
      ∧ (2 * rest < unit ↔ 2 * i.point i.middle < 2 * least + 10 ^ power) := by
  intro up unit below rest least
  obtain ⟨scale, positive, numerators, step⟩ := proper.scaled power
  have larger : 0 < unit := Nat.mul_pos proper.positive (Nat.pow_pos (by decide))
  have whole : below * unit + rest = i.middle * up := Nat.div_add_mod' _ _
  have small : rest < unit := Nat.mod_lt _ larger
  have unit_eq : (unit : ℚ) = 10 ^ power * scale := step
  have first : ((below * unit : Nat) : ℚ) = least * scale := by
    push_cast
    rw [unit_eq]
    ring
  have second : (((below + 1) * unit : Nat) : ℚ) = (least + 10 ^ power) * scale := by
    push_cast
    rw [unit_eq]
    ring
  have center : least * scale + rest = i.point i.middle * scale := by
    rw [← first, ← numerators]
    exact_mod_cast whole
  have bounded : (rest : ℚ) < 10 ^ power * scale := by
    rw [← unit_eq]
    exact_mod_cast small
  refine ⟨before_cast positive (numerators i.low) first,
    before_cast positive second (numerators i.high), ?_, ?_, fun zero => ?_, ?_⟩
  · rw [← mul_le_mul_iff_of_pos_right positive, ← center]
    exact le_add_of_nonneg_right (Nat.cast_nonneg _)
  · rw [← mul_lt_mul_iff_of_pos_right positive]
    linarith
  · rw [zero, Nat.cast_zero, add_zero] at center
    exact mul_right_cancel₀ positive.ne' center
  · have cast : 2 * rest < unit ↔ (2 * rest : ℚ) < unit := by norm_cast
    have scaled : 2 * i.point i.middle < 2 * least + 10 ^ power
        ↔ 2 * i.point i.middle * scale < (2 * least + 10 ^ power) * scale :=
      (mul_lt_mul_iff_of_pos_right positive).symm
    rw [cast, unit_eq, scaled]
    constructor <;> intro <;> linarith

/-- What is chosen on a grid lies in the interval, and where the ends are equally far from the
middle it is within half a step of it.
-/
theorem nearestMultiple_spec {i : RoundingInterval} (proper : i.IsProper) {power : Int}
    {multiple : Nat} (found : i.nearestMultiple? power = some multiple)
    : i.Contains (multiple * 10 ^ power)
      ∧ (i.point i.low + i.point i.high = 2 * i.point i.middle
        → |multiple * 10 ^ power - i.point i.middle| ≤ 10 ^ power / 2) := by
  obtain ⟨left, right, low, high, exactly, half⟩ := proper.around power
  have bottom : (0 : ℚ) < i.denominator := by exact_mod_cast proper.positive
  have before : i.point i.low < i.point i.middle :=
    div_lt_div_of_pos_right (by exact_mod_cast proper.left) bottom
  have behind : i.point i.middle < i.point i.high :=
    div_lt_div_of_pos_right (by exact_mod_cast proper.right) bottom
  rcases i.nearestMultiple_cases power with
    ⟨chosen, fits, near⟩ | ⟨chosen, fits, near⟩ | ⟨chosen, -⟩
  · cases chosen.symm.trans found
    rw [left] at fits
    rw [right, half] at near
    refine ⟨⟨fits, before_of_lt (low.trans_lt behind)⟩, fun even => ?_⟩
    have least := fits.le
    rw [abs_of_nonpos (by linarith)]
    rcases near with zero | far | near
    · linarith [exactly zero]
    · linarith [le_of_not_before far]
    · linarith
  · cases chosen.symm.trans found
    rw [right] at fits
    rw [left, ← not_lt, half] at near
    rw [Nat.cast_succ, add_mul, one_mul]
    refine ⟨⟨before_of_lt (before.trans high), fits⟩, fun even => ?_⟩
    have most := fits.le
    rw [abs_of_nonneg (by linarith)]
    rcases near with far | near
    · linarith [le_of_not_before far]
    · linarith
  · cases chosen.symm.trans found

/-- Where nothing is chosen the grid is no finer than the interval. -/
theorem width_le_of_nearestMultiple {i : RoundingInterval} (proper : i.IsProper) {power : Int}
    (missing : i.nearestMultiple? power = none)
    : i.point i.high - i.point i.low ≤ 10 ^ power := by
  obtain ⟨left, right, -⟩ := proper.around power
  rcases i.nearestMultiple_cases power with ⟨chosen, -⟩ | ⟨chosen, -⟩ | ⟨-, below, above⟩
  · cases chosen.symm.trans missing
  · cases chosen.symm.trans missing
  · rw [left] at below
    rw [right] at above
    linarith [le_of_not_before below, le_of_not_before above]

/-- The search finds a multiple if it comes to a grid that is finer than the interval, by induction
on its steps.
-/
theorem nearestMultiple_search {i : RoundingInterval} (proper : i.IsProper) (steps : Nat)
    {power : Int} (fine : 10 ^ (power - steps) < i.point i.high - i.point i.low)
    : i.nearestMultiple? (i.search (steps + 1) power).2 = some (i.search (steps + 1) power).1 := by
  induction steps generalizing power with
  | zero =>
      simp only [search]
      split
      · rename_i found
        exact found
      · rename_i missing
        have wide := width_le_of_nearestMultiple proper missing
        simp only [Nat.cast_zero, sub_zero] at fine
        exact absurd fine (not_lt.mpr wide)
  | succ steps ih =>
      rw [search]
      split
      · rename_i found
        exact found
      · refine ih ?_
        rwa [show power - 1 - (steps : Int) = power - (steps + 1 : Nat) by push_cast; ring]

-----------------------------------------------------------------------------------------
-- The interval around a magnitude
-----------------------------------------------------------------------------------------

section

variable {f : Format} {pattern : Nat}

/-- Numerators and the denominator at the exponent of a magnitude. -/
theorem point_scaled (a : Nat) (exponent : Int)
    : ((a * 2 ^ (exponent - 2).toNat : Nat) : ℚ) / (2 ^ (2 - exponent).toNat : Nat)
      = a * 2 ^ exponent / 4 := by
  have power : (2 : ℚ) ^ exponent = 4 * 2 ^ (exponent - 2) := by
    rw [zpow_sub₀ (by norm_num)]
    norm_num
    ring
  rw [power, zpow_eq_toNat_div, neg_sub]
  push_cast
  ring

/-- The ends of the interval are halfway to the neighbours, and inside if the pattern is even. -/
theorem ofMagnitude_spec (fraction : 0 < f.fractionBits) (pattern : Nat)
    : let parts := f.magnitude (pattern + 1)
      let i := ofMagnitude f parts.1 parts.2
      i.IsProper ∧ i.point i.low = f.boundary pattern ∧ i.point i.middle = f.real (pattern + 1)
        ∧ i.point i.high = f.boundary (pattern + 1)
        ∧ (i.closed = true ↔ (pattern + 1) % 2 = 0) := by
  intro parts i
  have positive : 0 < parts.1 := Format.magnitude_pos pattern.succ_pos
  have scale : 0 < 2 ^ (parts.2 - 2).toNat := Nat.two_pow_pos _
  have point (a : Nat) : i.point (a * 2 ^ (parts.2 - 2).toNat) = a * 2 ^ parts.2 / 4 :=
    point_scaled a parts.2
  have center : f.real (pattern + 1) = parts.1 * 2 ^ parts.2 := f.real_eq_magnitude _
  refine ⟨⟨Nat.two_pow_pos _, Nat.mul_lt_mul_of_pos_right ?_ scale,
    Nat.mul_lt_mul_of_pos_right (by omega) scale⟩, (point _).trans ?_, (point _).trans ?_,
    (point _).trans ?_, ?_⟩
  · split <;> omega
  · have below := f.boundary_pred pattern
    rw [below, center]
    split
    · rw [Nat.cast_sub (by omega)]
      push_cast
      ring
    · rw [Nat.cast_sub (by omega)]
      push_cast
      ring
  · rw [center]
    push_cast
    ring
  · rw [f.boundary_eq, center]
    push_cast
    ring
  · rw [← Format.mod_two_magnitude fraction]
    exact decide_eq_true_iff

/-- The search comes to a grid that is finer than the interval. -/
theorem fine_of_isModerate (moderate : f.IsModerate) (bounded : pattern + 1 ≤ f.infinity)
    : let parts := f.magnitude (pattern + 1)
      let i := ofMagnitude f parts.1 parts.2
      (10 : ℚ) ^ (i.startPower - 399) < i.point i.high - i.point i.low := by
  intro parts i
  obtain ⟨proper, low, -, high, -⟩ := ofMagnitude_spec moderate.fraction pattern
  obtain ⟨least, most⟩ : -1100 ≤ parts.2 ∧ parts.2 < 1000 := moderate.exponent_bounds bounded
  have short : parts.1 + 1 ≤ 2 ^ (f.fractionBits + 1) := (f.magnitude_parts (pattern + 1)).2.2.1
  have unit : (0 : ℚ) < 2 ^ parts.2 := zpow_pos (by norm_num) _
  have top : i.point i.high < 2 ^ ((f.fractionBits : Int) + 1 + parts.2) := by
    calc i.point i.high
        = parts.1 * 2 ^ parts.2 + 2 ^ parts.2 / 2 := by
          rw [high, f.boundary_eq, f.real_eq_magnitude]
      _ < (parts.1 + 1 : Nat) * 2 ^ parts.2 := by
          push_cast
          linarith
      _ ≤ 2 ^ (f.fractionBits + 1) * 2 ^ parts.2 :=
          mul_le_mul_of_nonneg_right (by exact_mod_cast short) unit.le
      _ = 2 ^ ((f.fractionBits : Int) + 1 + parts.2) := by
          rw [zpow_add₀ (by norm_num), ← zpow_natCast, Nat.cast_succ]
  have log := (Format.ratio_bounds (Nat.zero_lt_of_lt proper.right) proper.positive).1.trans top
  have log : (i.high.log2 : Int) - i.denominator.log2 - 1 < f.fractionBits + 1 + parts.2 :=
    (zpow_lt_zpow_iff_right₀ (by norm_num : (1 : ℚ) < 2)).mp log
  have bits := moderate.short
  have start : i.startPower = ((i.high.log2 + 1 : Int) - i.denominator.log2) * 30103 / 100000 + 1 :=
    rfl
  calc (10 : ℚ) ^ (i.startPower - 399)
      ≤ 2 ^ (3 * (i.startPower - 399)) := ten_zpow_le (by omega)
    _ ≤ 2 ^ (parts.2 - 1) := zpow_le_zpow_right₀ (by norm_num) (by omega)
    _ = 2 ^ parts.2 / 2 := by rw [zpow_sub_one₀ (by norm_num), div_eq_mul_inv]
    _ < i.point i.high - i.point i.low := by
        rw [high, low, f.boundary_eq, f.boundary_pred]
        split <;> linarith

end

end RoundingInterval

-----------------------------------------------------------------------------------------
-- The shortest decimal
-----------------------------------------------------------------------------------------

/-- The shortest decimal of a positive number rounds to it.  For an odd pattern it is within half a
step of its last digit.
-/
theorem shortest_spec {f : Format} (moderate : f.IsModerate) (negative : Bool) {pattern : Nat}
    (finite : pattern + 1 < f.infinity)
    : let d := shortest f negative (f.magnitude (pattern + 1)).1 (f.magnitude (pattern + 1)).2
      d.negative = negative ∧ f.IsNearest d.size (pattern + 1)
        ∧ ((pattern + 1) % 2 = 1 → |d.size - f.real (pattern + 1)| ≤ 10 ^ d.exponent / 2) := by
  obtain ⟨proper, low, middle, high, closed⟩ :=
    RoundingInterval.ofMagnitude_spec moderate.fraction pattern
  have fine := RoundingInterval.fine_of_isModerate moderate (Nat.le_of_lt finite)
  have positive : (f.magnitude (pattern + 1)).1 ≠ 0 := (Format.magnitude_pos pattern.succ_pos).ne'
  have found := RoundingInterval.nearestMultiple_search proper 399 fine
  rw [shortest, if_neg positive]
  have parity := Format.mod_two_magnitude moderate.fraction (pattern + 1)
  have below := f.boundary_pred pattern
  dsimp only at low middle high closed found below ⊢
  generalize RoundingInterval.ofMagnitude f (f.magnitude (pattern + 1)).1
    (f.magnitude (pattern + 1)).2 = i at *
  generalize i.search (399 + 1) i.startPower = result at *
  obtain ⟨⟨left, right⟩, near⟩ := RoundingInterval.nearestMultiple_spec proper found
  refine ⟨rfl, ⟨Nat.le_of_lt finite, fun under same => ?_, fun _ => ?_⟩, fun odd => ?_⟩
  · obtain rfl : pattern = under := Nat.succ.inj same
    rw [← low]
    exact left.lt_or.imp_right (And.imp_right closed.mp)
  · rw [← high]
    exact right.lt_or.imp_right (And.imp_right closed.mp)
  · -- An odd mantissa does not begin a denser range.
    have even : i.point i.low + i.point i.high = 2 * i.point i.middle := by
      have other : (f.magnitude (pattern + 1)).1 ≠ 2 ^ f.fractionBits := by
        obtain ⟨bits, same⟩ := Nat.exists_eq_add_of_le' moderate.fraction
        rw [same, Nat.pow_succ]
        omega
      rw [if_neg fun dense => other dense.1] at below
      rw [low, high, middle, below, f.boundary_eq]
      ring
    rw [← middle]
    exact near even

end Protobuf.Number
