import Protobuf.Proofs.Text.Digits
import Protobuf.Time.Timestamp

/-! Fractions of a second.  They are written with three, six or nine digits, as few as tell the
nanoseconds, and read with any digits behind a point.
-/

namespace Protobuf.Time

open Text

/-- A point and the digits behind it, if there are any. -/
def pointed : Option (List Char) → List Char
  | none => []
  | some digits => '.' :: digits

/-- There are digits behind the point. -/
def IsFraction (fraction : Option (List Char)) : Prop :=
  ∀ digits ∈ fraction, digits ≠ [] ∧ ∀ c ∈ digits, c.isDigit

theorem isDigit_of_isFraction {fraction : Option (List Char)} (h : IsFraction fraction)
    : ∀ c ∈ fraction.getD [], c.isDigit := by
  cases fraction with
  | none => exact fun c listed => nomatch listed
  | some digits => exact (h digits rfl).2

/-- Multiplying by ten once for each missing digit, by induction on how many are missing. -/
theorem repeat_mul_ten (missing n : Nat)
    : missing.repeat (· * 10) n = n * 10 ^ missing := by
  induction missing with
  | zero => exact (Nat.mul_one n).symm
  | succ missing ih => rw [Nat.repeat, ih, Nat.pow_succ, Nat.mul_assoc]

/-- Multiplying by ten for each missing digit scales the fraction to nine digits. -/
theorem nanosOfDigits_eq (digits : List Char)
    : nanosOfDigits digits = decimalValue digits * 10 ^ (9 - digits.length) :=
  repeat_mul_ten _ _

/-- Nine digits are less than a second. -/
theorem nanosOfDigits_lt {digits : List Char} (legal : ∀ c ∈ digits, c.isDigit)
    (short : digits.length ≤ 9)
    : nanosOfDigits digits < 1000000000 := by
  have whole : 10 ^ digits.length * 10 ^ (9 - digits.length) = 1000000000 := by
    rw [← Nat.pow_add, Nat.add_sub_cancel' short]
  rw [← whole, nanosOfDigits_eq]
  exact Nat.mul_lt_mul_of_pos_right (decimalValue_lt legal) (Nat.pow_pos (by decide))

/-- Digits that are padded to their width come back. -/
theorem nanosOfDigits_paddedDigits {width n : Nat} (small : n < 10 ^ width)
    : nanosOfDigits (paddedDigits width n) = n * 10 ^ (9 - width) := by
  rw [nanosOfDigits_eq, decimalValue_paddedDigits small, length_paddedDigits]

/-- The digits tell the nanoseconds, and no smaller number of groups of three digits does. -/
structure ShowsNanos (digits : List Char) (nanos : Nat) : Prop where
  exact : nanosOfDigits digits = nanos
  places : digits.length ∈ [0, 3, 6, 9]
  fewest : ∀ places ∈ [0, 3, 6, 9], 10 ^ (9 - places) ∣ nanos → digits.length ≤ places

/-- A fraction in `width` digits that are not one group too many. -/
theorem showsNanos_paddedDigits {width nanos : Nat} (small : nanos < 1000000000)
    (places : width ∈ [3, 6, 9]) (enough : nanos % 10 ^ (9 - width) = 0)
    (needed : nanos % 10 ^ (12 - width) ≠ 0)
    : ShowsNanos (paddedDigits width (nanos / 10 ^ (9 - width))) nanos := by
  have length := length_paddedDigits width (nanos / 10 ^ (9 - width))
  simp only [List.mem_cons, List.not_mem_nil, or_false] at places
  have divided : nanos / 10 ^ (9 - width) * 10 ^ (9 - width) = nanos :=
    Nat.div_mul_cancel (Nat.dvd_of_mod_eq_zero enough)
  constructor
  · rw [nanosOfDigits_paddedDigits, divided]
    rcases places with rfl | rfl | rfl <;> omega
  · rw [length]
    rcases places with rfl | rfl | rfl <;> simp
  · intro others listed divides
    rw [length]
    refine Nat.le_of_not_lt fun fewer => needed (Nat.mod_eq_zero_of_dvd (Nat.dvd_trans ?_ divides))
    simp only [List.mem_cons, List.not_mem_nil, or_false] at listed
    exact Nat.pow_dvd_pow 10 (by omega)

theorem digitChar_eq_zero_iff {n : Nat}
    : digitChar n = '0' ↔ n % 10 = 0 := by
  rw [Char.ext_iff, ← UInt32.toNat_inj]
  have code := (digitChar_facts n).2
  unfold Char.toNat at code
  rw [code]
  simp

/-- Zeros are dropped from one end. -/
theorem dropZeros_suffix (digits : List Char)
    : dropZeros digits <:+ digits := by
  fun_induction dropZeros digits with
  | case1 digits ih => exact ih.trans ⟨['0', '0', '0'], rfl⟩
  | case2 digits => exact List.suffix_rfl

/-- The last three digits are dropped if they are zeros. -/
theorem dropZeros_paddedDigits (width n : Nat)
    : dropZeros (paddedDigits (width + 3) n).reverse
        = if n % 1000 = 0 then dropZeros (paddedDigits width (n / 1000)).reverse
          else (paddedDigits (width + 3) n).reverse := by
  have last : (paddedDigits (width + 3) n).reverse
      = digitChar n :: digitChar (n / 10) :: digitChar (n / 100)
        :: (paddedDigits width (n / 1000)).reverse := by
    simp [paddedDigits, Nat.div_div_eq_div_mul]
  rw [last]
  split
  · rename_i zeros
    have zero (k : Nat) (h : k % 10 = 0) : digitChar k = '0' := digitChar_eq_zero_iff.mpr h
    rw [zero n (by omega), zero (n / 10) (by omega), zero (n / 100) (by omega), dropZeros]
  · rename_i other
    rw [dropZeros]
    intro digits same
    injection same with first same
    injection same with second same
    injection same with third same
    rw [digitChar_eq_zero_iff] at first second third
    omega

/-- A fraction has three, six or nine digits: those that are left when groups of three zeros are
dropped from the end.
-/
theorem fractionText_eq {nanos : Nat} (small : nanos < 1000000000)
    : fractionText nanos
        = if nanos = 0 then []
          else if nanos % 1000000 = 0 then '.' :: paddedDigits 3 (nanos / 1000000)
          else if nanos % 1000 = 0 then '.' :: paddedDigits 6 (nanos / 1000)
          else '.' :: paddedDigits 9 nanos := by
  unfold fractionText
  rw [dropZeros_paddedDigits, dropZeros_paddedDigits, dropZeros_paddedDigits,
    Nat.div_div_eq_div_mul]
  by_cases zero : nanos = 0
  · rw [if_pos zero, if_pos zero]
  rw [if_neg zero, if_neg zero]
  by_cases thousands : nanos % 1000 = 0
  · rw [if_pos thousands, if_pos thousands]
    by_cases millions : nanos % 1000000 = 0
    · rw [if_pos millions, if_pos (by omega), if_neg (by omega), List.reverse_reverse]
    · rw [if_neg millions, if_neg (by omega), List.reverse_reverse]
  · rw [if_neg thousands, if_neg thousands, if_neg (by omega), List.reverse_reverse]

/-- A fraction is nothing for zero, and otherwise a point and digits that tell the nanoseconds. -/
theorem exists_fraction {nanos : Nat} (small : nanos < 1000000000)
    : ∃ fraction, fractionText nanos = pointed fraction ∧ IsFraction fraction
      ∧ ShowsNanos (fraction.getD []) nanos := by
  have digits (width n : Nat)
    (positive : 0 < width) : IsFraction (some (paddedDigits width n)) := by
    rintro _ ⟨⟩
    refine ⟨?_, fun c listed => isDigit_of_mem_paddedDigits listed⟩
    rw [← List.length_pos_iff, length_paddedDigits]
    exact positive
  rw [fractionText_eq small]
  split
  · rename_i zero
    refine ⟨none, rfl, nofun, ?_, by simp, by simp⟩
    rw [zero]
    rfl
  · split
    · exact ⟨some _, rfl, digits 3 _ (by decide),
        showsNanos_paddedDigits small (by simp) ‹_› (by omega)⟩
    · split
      · exact ⟨some _, rfl, digits 6 _ (by decide), showsNanos_paddedDigits small (by simp) ‹_› ‹_›⟩
      · have nine := showsNanos_paddedDigits small (show 9 ∈ [3, 6, 9] by simp) (Nat.mod_one _) ‹_›
        rw [show nanos / 10 ^ (9 - 9) = nanos from Nat.div_one _] at nine
        exact ⟨some _, rfl, digits 9 _ (by decide), nine⟩

/-- The digits behind a point are read up to what stands behind them. -/
theorem takeFraction_pointed {fraction : Option (List Char)} (legal : IsFraction fraction)
    (rest : List Char) (stops : ∀ c ∈ rest.head?, c ≠ '.' ∧ c.isDigit = false)
    : Timestamp.takeFraction (pointed fraction ++ rest)
        = some (nanosOfDigits ((fraction.getD []).take 9), rest) := by
  cases fraction with
  | none =>
      rw [pointed, List.nil_append]
      unfold Timestamp.takeFraction
      split
      · exact absurd rfl (stops '.' rfl).1
      · rfl
  | some digits =>
      obtain ⟨written, digit⟩ := legal digits rfl
      have front : (digits ++ rest).takeWhile Char.isDigit = digits := by
        rw [List.takeWhile_append_of_pos digit]
        cases rest with
        | nil => simp
        | cons c rest => simp [(stops c rfl).2]
      have behind : (digits ++ rest).dropWhile Char.isDigit = rest := by
        rw [List.dropWhile_append_of_pos digit]
        cases rest with
        | nil => rfl
        | cons c rest => simp [(stops c rfl).2]
      rw [pointed, List.cons_append]
      simp only [Timestamp.takeFraction, front, behind, List.isEmpty_iff, written, if_false,
        Option.getD_some]

/-- What was read behind an optional point is a fraction. -/
theorem eq_of_takeFraction {text rest : List Char} {nanos : Nat}
    (h : Timestamp.takeFraction text = some (nanos, rest))
    : ∃ fraction, IsFraction fraction ∧ text = pointed fraction ++ rest := by
  unfold Timestamp.takeFraction at h
  split at h
  · rename_i behind
    dsimp only at h
    split at h
    · cases h
    · rename_i written
      cases h
      refine ⟨some (behind.takeWhile Char.isDigit), ?_, ?_⟩
      · rintro _ ⟨⟩
        exact ⟨by simpa using written, List.all_eq_true.mp List.all_takeWhile⟩
      · rw [pointed, List.cons_append, List.takeWhile_append_dropWhile]
  · cases h
    exact ⟨none, nofun, rfl⟩

end Protobuf.Time
