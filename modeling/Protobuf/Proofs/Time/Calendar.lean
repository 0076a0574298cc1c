import Protobuf.Time.Calendar

/-! Dates and day numbers correspond to each other: every day number has a date, which exists and
has that number, and the day after a date has the next one.
-/

namespace Protobuf.Time

theorem sum_monthLengths (year : Int)
    : (((monthLengths year).foldr Nat.add 0 : Nat) : Int)
        = daysBeforeYear (year + 1) - daysBeforeYear year := by
  have leap : isLeapYear year ↔ year % 4 = 0 ∧ (year % 100 ≠ 0 ∨ year % 400 = 0) := by
    simp [isLeapYear]
  simp only [monthLengths, List.foldr, daysBeforeYear, Nat.add_eq]
  by_cases h : isLeapYear year
  · have facts := leap.mp h
    rw [if_pos h]
    omega
  · have facts := mt leap.mpr h
    rw [if_neg h]
    omega

/-- Days of a year are split into whole months and a day of the next one, by induction on the
lengths of the months.
-/
theorem splitMonths_spec {lengths : List Nat} {days : Nat}
    (inside : days < lengths.foldr Nat.add 0) (month : Nat)
    : ∃ k length day, Date.splitMonths month days lengths = (month + k, day)
        ∧ lengths[k]? = some length ∧ 1 ≤ day ∧ day ≤ length
        ∧ (lengths.take k).foldr Nat.add 0 + day = days + 1 := by
  induction lengths generalizing month days with
  | nil => cases inside
  | cons length lengths ih =>
      rw [Date.splitMonths]
      split
      · exact ⟨0, length, days + 1, rfl, rfl, by omega, by omega, Nat.zero_add _⟩
      · rename_i long
        have inside : days - length < lengths.foldr Nat.add 0 := by
          simp only [List.foldr_cons, Nat.add_eq] at inside
          omega
        obtain ⟨k, last, day, split, place, least, most, sum⟩ := ih inside (month + 1)
        refine ⟨k + 1, last,
          day, by rw [split, Nat.add_right_comm, Nat.add_assoc], place, least, most, ?_⟩
        simp only [List.take_succ_cons, List.foldr_cons, Nat.add_eq]
        omega

namespace Date

/-- A day number lies in its year: the guess is at most one year off. -/
theorem yearOfDay_spec (day : Int)
    : daysBeforeYear (yearOfDay day) ≤ day ∧ day < daysBeforeYear (yearOfDay day + 1) := by
  simp only [yearOfDay]
  generalize guessed : day * 400 / 146097 = q
  have low : 146097 * q ≤ 400 * day := by omega
  have high : 400 * day < 146097 * (q + 1) := by omega
  have before : daysBeforeYear (q + 1 - 1) ≤ day := by
    simp only [daysBeforeYear]
    omega
  have behind : day < daysBeforeYear (q + 1 + 1 + 1) := by
    simp only [daysBeforeYear]
    omega
  split
  · exact ⟨‹_›, behind⟩
  · split
    · rw [Int.sub_add_cancel]
      exact ⟨before, ‹_›⟩
    · exact ⟨Int.not_lt.mp ‹_›, Int.not_le.mp ‹_›⟩

/-- The date of a day number exists and has that number. -/
theorem ofDayNumber_spec (day : Int)
    : (ofDayNumber day).isValid ∧ (ofDayNumber day).dayNumber = day := by
  obtain ⟨first, last⟩ := yearOfDay_spec day
  have sum := sum_monthLengths (yearOfDay day)
  have inside : (day - daysBeforeYear (yearOfDay day)).toNat
      < (monthLengths (yearOfDay day)).foldr Nat.add 0 := by
    omega
  obtain ⟨k, length, dayOfMonth, split, place, least, most, total⟩ := splitMonths_spec inside 1
  have same : ofDayNumber day = ⟨yearOfDay day, 1 + k, dayOfMonth⟩ := by
    simp only [ofDayNumber, split]
  rw [same]
  constructor
  · simp [isValid, place, least, most]
  · simp only [dayNumber, Nat.add_sub_cancel_left]
    omega

theorem isValid_iff {date : Date}
    : date.isValid ↔ 1 ≤ date.month ∧ 1 ≤ date.day
        ∧ ∃ length, (monthLengths date.year)[date.month - 1]? = some length
          ∧ date.day ≤ length := by
  simp only [isValid, Bool.and_eq_true, decide_eq_true_eq, and_assoc]
  cases (monthLengths date.year)[date.month - 1]? <;> simp

theorem isValid_bounds {date : Date} (h : date.isValid)
    : date.month ≤ 12 ∧ date.day ≤ 31 := by
  have lengths : ∀ length ∈ monthLengths date.year, length ≤ 31 := by
    unfold monthLengths
    split <;> decide
  have twelve : (monthLengths date.year).length = 12 := rfl
  obtain ⟨-, -, length, place, fits⟩ := isValid_iff.mp h
  obtain ⟨small, same⟩ := List.getElem?_eq_some_iff.mp place
  have short := lengths length (same ▸ List.getElem_mem small)
  omega

/-- Dates of the days from 0001-01-01 to 9999-12-31 have years of at most four digits. -/
theorem year_ofDayNumber {day : Int} (first : 0 ≤ day) (last : day < 3652059)
    : 1 ≤ (ofDayNumber day).year ∧ (ofDayNumber day).year ≤ 9999 := by
  obtain ⟨low, high⟩ := yearOfDay_spec day
  have same : (ofDayNumber day).year = yearOfDay day := rfl
  rw [same]
  simp only [daysBeforeYear] at low high
  omega

-----------------------------------------------------------------------------------------
-- The day after
-----------------------------------------------------------------------------------------

/-- The day after: the next of its month, or the first of the next month or year. -/
def next (date : Date) : Date :=
  if (⟨date.year, date.month, date.day + 1⟩ : Date).isValid then
    ⟨date.year, date.month, date.day + 1⟩
  else if date.month < 12 then ⟨date.year, date.month + 1, 1⟩
  else ⟨date.year + 1, 1, 1⟩

theorem isValid_first {year : Int} {month : Nat} (least : 1 ≤ month) (most : month ≤ 12)
    : (⟨year, month, 1⟩ : Date).isValid := by
  have lengths : ∀ length ∈ monthLengths year, 1 ≤ length := by
    unfold monthLengths
    split <;> decide
  have inside : month - 1 < (monthLengths year).length := by
    have twelve : (monthLengths year).length = 12 := rfl
    omega
  refine isValid_iff.mpr ⟨least, Nat.le_refl 1, _, List.getElem?_eq_getElem inside, ?_⟩
  exact lengths _ (List.getElem_mem inside)

/-- The days of the months up to one are those before it and its own. -/
theorem sum_take_month {year : Int} {month length : Nat} (least : 1 ≤ month)
    (place : (monthLengths year)[month - 1]? = some length)
    : ((monthLengths year).take month).foldr Nat.add 0
        = ((monthLengths year).take (month - 1)).foldr Nat.add 0 + length := by
  have before : (monthLengths year).take month
    = (monthLengths year).take (month - 1) ++ [length] := by
    rw [show month = month - 1 + 1 by omega, List.take_add_one, place]
    rfl
  change ((monthLengths year).take month).sum = ((monthLengths year).take (month - 1)).sum + length
  rw [before, List.sum_append, List.sum_singleton]

/-- Dates follow each other as day numbers do. -/
theorem next_spec {date : Date} (valid : date.isValid)
    : date.next.isValid ∧ date.next.dayNumber = date.dayNumber + 1 := by
  obtain ⟨year, month, day⟩ := date
  obtain ⟨least, -, length, place, inside⟩ := isValid_iff.mp valid
  simp only at least place inside
  have sum := sum_take_month least place
  by_cases tomorrow : (⟨year, month, day + 1⟩ : Date).isValid
  · rw [show next ⟨year, month, day⟩ = ⟨year, month, day + 1⟩ from if_pos tomorrow]
    refine ⟨tomorrow, ?_⟩
    simp only [dayNumber]
    omega
  have last : day = length := by
    refine Nat.le_antisymm inside (Nat.le_of_not_lt fun earlier => tomorrow ?_)
    exact isValid_iff.mpr ⟨least, by simp, length, place, earlier⟩
  by_cases early : month < 12
  · have same : next ⟨year, month, day⟩ = ⟨year, month + 1, 1⟩ := by
      simp only [next, tomorrow, early, if_true, if_false, Bool.false_eq_true]
    rw [same]
    refine ⟨isValid_first (by simp) early, ?_⟩
    simp only [dayNumber, Nat.add_sub_cancel, sum]
    omega
  · have same : next ⟨year, month, day⟩ = ⟨year + 1, 1, 1⟩ := by
      simp only [next, tomorrow, early, if_false, Bool.false_eq_true]
    have whole : (monthLengths year).take month = monthLengths year :=
      List.take_of_length_le (show 12 ≤ month by omega)
    have days := sum_monthLengths year
    rw [whole] at sum
    rw [same]
    refine ⟨isValid_first (by simp) (by simp), ?_⟩
    simp only [dayNumber, Nat.sub_self, List.take_zero, List.foldr_nil]
    omega

/-- The first day has the number zero, so that a day number counts the days since then. -/
example : (⟨1, 1, 1⟩ : Date).dayNumber = 0 := by decide

end Date

end Protobuf.Time
