import Mathlib.Algebra.Order.Group.Unbundled.Int
import Protobuf.Time.Duration

/-! Spans in normal form.  Whole seconds are carried out of the nanoseconds, and a second is
borrowed where the signs differ; together this divides the nanoseconds of the span by those of a
second, towards zero.  The nanoseconds of the span stay the same unless its whole seconds are out of
range.
-/

namespace Protobuf.Time

-----------------------------------------------------------------------------------------
-- Division towards zero
-----------------------------------------------------------------------------------------

/-- So many nanoseconds are whole seconds and a rest of less than one, both of the same sign. -/
structure Splits (total seconds nanos : Int) : Prop where
  sum : seconds * 1000000000 + nanos = total
  ahead : 0 ≤ total → 0 ≤ nanos ∧ nanos < 1000000000
  back : total ≤ 0 → -1000000000 < nanos ∧ nanos ≤ 0

theorem splits_tdiv (total : Int)
    : Splits total (total.tdiv nanosPerSecond) (total.tmod nanosPerSecond) where
  sum := Int.tdiv_mul_add_tmod total nanosPerSecond
  ahead sign := ⟨Int.tmod_nonneg _ sign, Int.tmod_lt_of_pos _ (by decide)⟩
  back sign := by
    have flipped : 0 ≤ (-total).tmod nanosPerSecond :=
      Int.tmod_nonneg _ (Int.neg_nonneg_of_nonpos sign)
    rw [Int.neg_tmod] at flipped
    exact ⟨Int.lt_tmod_of_pos _ (by decide), Int.nonpos_of_neg_nonneg flipped⟩

/-- There is one way to split a number of nanoseconds. -/
theorem Splits.unique {total seconds nanos seconds' nanos' : Int} (h : Splits total seconds nanos)
    (h' : Splits total seconds' nanos')
    : seconds = seconds' ∧ nanos = nanos' := by
  have sum := h.sum
  have sum' := h'.sum
  rcases Int.le_total 0 total with sign | sign
  · have first := h.ahead sign
    have second := h'.ahead sign
    omega
  · have first := h.back sign
    have second := h'.back sign
    omega

-----------------------------------------------------------------------------------------
-- Arithmetic in range
-----------------------------------------------------------------------------------------

/-- A number as a 64-bit one, if it is in range. -/
def int64? (n : Int) : Option Int64 :=
  if Int64.minValue.toInt ≤ n ∧ n ≤ Int64.maxValue.toInt then some (Int64.ofInt n) else none

/-- A number as a 32-bit one, if it is in range. -/
def int32? (n : Int) : Option Int32 :=
  if Int32.minValue.toInt ≤ n ∧ n ≤ Int32.maxValue.toInt then some (Int32.ofInt n) else none

theorem toInt_limits
    : Int64.minValue.toInt = -2 ^ 63 ∧ Int64.maxValue.toInt = 2 ^ 63 - 1
      ∧ Int32.minValue.toInt = -2 ^ 31 ∧ Int32.maxValue.toInt = 2 ^ 31 - 1 := by
  decide

theorem int64?_eq {n : Int} (low : -2 ^ 63 ≤ n) (high : n < 2 ^ 63)
    : int64? n = some (Int64.ofInt n) := by
  have limits := toInt_limits
  exact if_pos (by omega)

theorem int32?_eq {n : Int} (low : -2 ^ 31 ≤ n) (high : n < 2 ^ 31)
    : int32? n = some (Int32.ofInt n) := by
  have limits := toInt_limits
  exact if_pos (by omega)

namespace Duration

/-- What is out of range saturates at the nearer limit. -/
theorem saturate_cases (n : Int)
    : n < -2 ^ 63 ∧ saturate n = -2 ^ 63 ∨ 2 ^ 63 - 1 < n ∧ saturate n = 2 ^ 63 - 1
      ∨ (-2 ^ 63 ≤ n ∧ n < 2 ^ 63) ∧ saturate n = n := by
  obtain ⟨low, high, -⟩ := toInt_limits
  unfold saturate
  rw [low, high]
  split
  · omega
  · split <;> omega

-----------------------------------------------------------------------------------------
-- The normal form
-----------------------------------------------------------------------------------------

/-- The nanoseconds of the span in all. -/
def total (d : Duration) : Int :=
  d.seconds.toInt * nanosPerSecond + d.nanos.toInt

/-- The nanoseconds are less than a second, and not of another sign than the seconds. -/
structure IsNormal (d : Duration) : Prop where
  nanos : |d.nanos.toInt| < nanosPerSecond
  signs : ¬(0 < d.seconds.toInt ∧ d.nanos.toInt < 0) ∧ ¬(d.seconds.toInt < 0 ∧ 0 < d.nanos.toInt)

/-- The normal form by arithmetic that gives up as soon as a result is out of range. -/
def normalize? (d : Duration) : Option Duration := do
  let carry ← int32? (d.nanos.toInt.tdiv nanosPerSecond)
  let seconds ← int64? (saturate (d.seconds.toInt + carry.toInt))
  let nanos ← int32? (d.nanos.toInt.tmod nanosPerSecond)
  if 0 < seconds.toInt ∧ nanos.toInt < 0 then
    return ⟨← int64? (seconds.toInt - 1), ← int32? (nanos.toInt + nanosPerSecond)⟩
  else if seconds.toInt < 0 ∧ 0 < nanos.toInt then
    return ⟨← int64? (seconds.toInt + 1), ← int32? (nanos.toInt - nanosPerSecond)⟩
  else return ⟨seconds, nanos⟩

variable {d : Duration}

/-- No step of the arithmetic leaves its range, and the outcome is the total divided towards zero,
with whole seconds that saturate.  The cases are the two directions in which a second may be
borrowed.
-/
theorem normalize_divides (d : Duration)
    : d.normalize? = some d.normalize
      ∧ d.normalize.seconds.toInt = saturate (d.total.tdiv nanosPerSecond)
      ∧ d.normalize.nanos.toInt = d.total.tmod nanosPerSecond := by
  have low := d.seconds.le_toInt
  have high := d.seconds.toInt_lt
  have lowNanos := d.nanos.le_toInt
  have highNanos := d.nanos.toInt_lt
  have whole : d.total = d.seconds.toInt * 1000000000 + d.nanos.toInt := rfl
  have second : nanosPerSecond = 1000000000 := rfl
  have divided {q r : Int} (h : Splits d.total q r)
      : d.total.tdiv 1000000000 = q ∧ d.total.tmod 1000000000 = r :=
    (splits_tdiv d.total).unique h
  obtain ⟨sum, ahead, back⟩ := splits_tdiv d.nanos.toInt
  unfold normalize normalize?
  dsimp only
  generalize d.nanos.toInt.tdiv nanosPerSecond = carry at *
  generalize d.nanos.toInt.tmod nanosPerSecond = rest at *
  have small : -3 < carry ∧ carry < 3 ∧ -1000000000 < rest ∧ rest < 1000000000 := by omega
  have saturated := saturate_cases (d.seconds.toInt + carry)
  have carryFits := int32?_eq (n := carry) (by omega) (by omega)
  have carryExact := Int32.toInt_ofInt_of_le (n := carry) (by omega) (by omega)
  have restFits := int32?_eq (n := rest) (by omega) (by omega)
  have restExact := Int32.toInt_ofInt_of_le (n := rest) (by omega) (by omega)
  simp only [carryFits, carryExact, Option.bind_eq_bind, Option.bind_some]
  generalize saturate (d.seconds.toInt + carry) = seconds at *
  have secondsFits := int64?_eq (n := seconds) (by omega) (by omega)
  have secondsExact := Int64.toInt_ofInt_of_le (n := seconds) (by omega) (by omega)
  simp only [secondsFits, secondsExact, restFits, restExact, Option.bind_some, second]
  by_cases forwards : 0 < seconds ∧ rest < 0
  · obtain ⟨quotient, remainder⟩ := divided (q := seconds - 1) (r := rest + 1000000000)
      ⟨by omega, by omega, by omega⟩
    have cut := saturate_cases (seconds - 1)
    rw [if_pos forwards, if_pos forwards, quotient, remainder, int64?_eq (by omega) (by omega),
      int32?_eq (by omega) (by omega), Int64.toInt_ofInt_of_le (by omega) (by omega),
      Int32.toInt_ofInt_of_le (by omega) (by omega)]
    exact ⟨rfl, by omega, rfl⟩
  · rw [if_neg forwards, if_neg forwards]
    by_cases backwards : seconds < 0 ∧ 0 < rest
    · obtain ⟨quotient, remainder⟩ := divided (q := seconds + 1) (r := rest - 1000000000)
        ⟨by omega, by omega, by omega⟩
      have cut := saturate_cases (seconds + 1)
      rw [if_pos backwards, if_pos backwards, quotient, remainder, int64?_eq (by omega) (by omega),
        int32?_eq (by omega) (by omega), Int64.toInt_ofInt_of_le (by omega) (by omega),
        Int32.toInt_ofInt_of_le (by omega) (by omega)]
      exact ⟨rfl, by omega, rfl⟩
    · obtain ⟨quotient, remainder⟩ := divided (q := d.seconds.toInt + carry) (r := rest)
        ⟨by omega, by omega, by omega⟩
      have cut := saturate_cases (d.seconds.toInt + carry)
      rw [if_neg backwards, if_neg backwards, quotient, remainder]
      exact ⟨rfl, secondsExact.trans (by omega), restExact⟩

-----------------------------------------------------------------------------------------
-- What the normal form keeps
-----------------------------------------------------------------------------------------

theorem isNormal_normalize (d : Duration)
    : d.normalize.IsNormal := by
  obtain ⟨-, seconds, nanos⟩ := d.normalize_divides
  have cut := saturate_cases (d.total.tdiv nanosPerSecond)
  obtain ⟨sum, ahead, back⟩ := splits_tdiv d.total
  have second : nanosPerSecond = 1000000000 := rfl
  constructor
  · rw [nanos, abs_lt]
    omega
  · rw [seconds, nanos]
    omega

/-- A span in normal form is split as its parts are. -/
theorem IsNormal.splits (h : d.IsNormal)
    : Splits d.total d.seconds.toInt d.nanos.toInt := by
  obtain ⟨bound, signs⟩ := h
  have second : nanosPerSecond = 1000000000 := rfl
  have whole : d.total = d.seconds.toInt * 1000000000 + d.nanos.toInt := rfl
  rw [abs_lt, second] at bound
  exact ⟨whole.symm, by omega, by omega⟩

theorem IsNormal.normalize_eq (h : d.IsNormal)
    : d.normalize = d := by
  obtain ⟨-, seconds, nanos⟩ := d.normalize_divides
  obtain ⟨quotient, remainder⟩ := (splits_tdiv d.total).unique h.splits
  have low := d.seconds.le_toInt
  have high := d.seconds.toInt_lt
  have cut := saturate_cases d.seconds.toInt
  rw [quotient] at seconds
  rw [remainder] at nanos
  have sameSeconds : d.normalize.seconds = d.seconds := Int64.toInt_inj.mp (by omega)
  have sameNanos : d.normalize.nanos = d.nanos := Int32.toInt_inj.mp nanos
  calc d.normalize
    _ = ⟨d.normalize.seconds, d.normalize.nanos⟩ := rfl
    _ = d := by rw [sameSeconds, sameNanos]

theorem total_normalize
    (inside : Int64.minValue.toInt ≤ d.total.tdiv nanosPerSecond
      ∧ d.total.tdiv nanosPerSecond ≤ Int64.maxValue.toInt)
    : d.normalize.total = d.total := by
  obtain ⟨-, seconds, nanos⟩ := d.normalize_divides
  have limits := toInt_limits
  have cut := saturate_cases (d.total.tdiv nanosPerSecond)
  have unsaturated : saturate (d.total.tdiv nanosPerSecond)
    = d.total.tdiv nanosPerSecond := by omega
  rw [total, seconds, nanos, unsaturated]
  exact (splits_tdiv d.total).sum

/-- The parts of a span in normal form have its sign. -/
theorem IsNormal.sign (h : d.IsNormal)
    : 0 ≤ d.total ↔ 0 ≤ d.seconds.toInt ∧ 0 ≤ d.nanos.toInt := by
  obtain ⟨sum, ahead, back⟩ := h.splits
  omega

theorem total_normalize_nonneg (d : Duration)
    : 0 ≤ d.normalize.total ↔ 0 ≤ d.total := by
  obtain ⟨-, seconds, nanos⟩ := d.normalize_divides
  have cut := saturate_cases (d.total.tdiv nanosPerSecond)
  obtain ⟨sum, ahead, back⟩ := splits_tdiv d.total
  rw [(isNormal_normalize d).sign, seconds, nanos]
  omega

/-- A span that is not negative has its normal form as unsigned parts, and any other is given back.
-/
theorem toUnsigned_cases (d : Duration)
    : (0 ≤ d.total ∧ ∃ seconds nanos, d.toUnsigned = .ok (seconds, nanos)
          ∧ (seconds.toNat : Int) = d.normalize.seconds.toInt
          ∧ (nanos.toNat : Int) = d.normalize.nanos.toInt)
      ∨ (d.total < 0 ∧ d.toUnsigned = .error d) := by
  have sign := total_normalize_nonneg d
  rw [(isNormal_normalize d).sign] at sign
  by_cases forwards : 0 ≤ d.total
  · obtain ⟨seconds, nanos⟩ := sign.mpr forwards
    have high := d.normalize.seconds.toInt_lt
    have highNanos := d.normalize.nanos.toInt_lt
    refine .inl ⟨forwards, _, _, if_pos ⟨seconds, nanos⟩, ?_, ?_⟩
    · rw [UInt64.toNat_ofNat', Nat.mod_eq_of_lt (by omega)]
      omega
    · rw [UInt32.toNat_ofNat', Nat.mod_eq_of_lt (by omega)]
      omega
  · exact .inr ⟨by omega, if_neg fun parts => forwards (sign.mp parts)⟩

/-- Unsigned parts with less than a second of nanoseconds are in normal form. -/
theorem ofUnsigned_normal {seconds : UInt64} {nanos : UInt32} (inside : seconds.toNat < 2 ^ 63)
    (less : nanos.toNat < 1000000000)
    : (ofUnsigned seconds nanos).IsNormal ∧ (ofUnsigned seconds nanos).seconds.toInt = seconds.toNat
        ∧ (ofUnsigned seconds nanos).nanos.toInt = nanos.toNat := by
  have cut := saturate_cases seconds.toNat
  have exactSeconds : (ofUnsigned seconds nanos).seconds.toInt = seconds.toNat := by
    rw [ofUnsigned, Int64.toInt_ofInt_of_le (by omega) (by omega)]
    omega
  have exactNanos : (ofUnsigned seconds nanos).nanos.toInt = nanos.toNat := by
    rw [ofUnsigned, Int32.toInt_ofInt_of_le (by omega) (by omega)]
  refine ⟨⟨?_, ?_⟩, exactSeconds, exactNanos⟩
  · rw [exactNanos, abs_lt, show nanosPerSecond = 1000000000 from rfl]
    omega
  · rw [exactSeconds, exactNanos]
    omega

theorem toUnsigned_ofUnsigned {seconds : UInt64} {nanos : UInt32} (inside : seconds.toNat < 2 ^ 63)
    (less : nanos.toNat < 1000000000)
    : (ofUnsigned seconds nanos).toUnsigned = .ok (seconds, nanos) := by
  obtain ⟨normal, exactSeconds, exactNanos⟩ := ofUnsigned_normal inside less
  rcases (ofUnsigned seconds nanos).toUnsigned_cases with ⟨-, u, v, converted, same, same'⟩
    | ⟨negative, -⟩
  · rw [normal.normalize_eq] at same same'
    have seconds' : u = seconds := UInt64.toNat_inj.mp (by omega)
    have nanos' : v = nanos := UInt32.toNat_inj.mp (by omega)
    rw [converted, seconds', nanos']
  · have forwards := normal.sign.mpr (by omega)
    omega

/-- Normal forms are exact.  No step of the arithmetic leaves its range; the nanoseconds are less
than a second and of the sign of the seconds; they add up to what they were, unless the whole
seconds are out of range, and then the seconds stop at the nearer limit; and a normal form stays as
it is.  A span has unsigned parts, those of its normal form, unless it is negative, and unsigned
parts come back from their span.
-/
theorem spans_normalize_exactly
    : (∀ d : Duration, d.normalize? = some d.normalize ∧ d.normalize.IsNormal
        ∧ (Int64.minValue.toInt ≤ d.total.tdiv nanosPerSecond
            ∧ d.total.tdiv nanosPerSecond ≤ Int64.maxValue.toInt → d.normalize.total = d.total)
        ∧ (d.total.tdiv nanosPerSecond < Int64.minValue.toInt
          → d.normalize.seconds = Int64.minValue)
        ∧ (Int64.maxValue.toInt < d.total.tdiv nanosPerSecond
          → d.normalize.seconds = Int64.maxValue)
        ∧ d.normalize.normalize = d.normalize
        ∧ ((0 ≤ d.total ∧ ∃ seconds nanos, d.toUnsigned = .ok (seconds, nanos)
              ∧ (seconds.toNat : Int) = d.normalize.seconds.toInt
              ∧ (nanos.toNat : Int) = d.normalize.nanos.toInt)
            ∨ (d.total < 0 ∧ d.toUnsigned = .error d)))
      ∧ ∀ (seconds : UInt64) (nanos : UInt32), seconds.toNat < 2 ^ 63 → nanos.toNat < 1000000000
        → (ofUnsigned seconds nanos).toUnsigned = .ok (seconds, nanos) := by
  refine ⟨fun d => ?_, fun seconds nanos => toUnsigned_ofUnsigned⟩
  obtain ⟨inRange, seconds, -⟩ := d.normalize_divides
  have cut := saturate_cases (d.total.tdiv nanosPerSecond)
  have limits := toInt_limits
  refine ⟨inRange, d.isNormal_normalize, total_normalize, fun below => ?_, fun above => ?_,
    d.isNormal_normalize.normalize_eq, d.toUnsigned_cases⟩
  · exact Int64.toInt_inj.mp (by omega)
  · exact Int64.toInt_inj.mp (by omega)

/-- A second is borrowed from two, the carry of the most seconds and nanoseconds stops at the limit,
and a millisecond less than nothing is given back.
-/
theorem spans_normalize_exactly_limits
    : let borrowed : Duration := ⟨-2, 1⟩
      let most : Duration := ⟨9223372036854775807, 1500000000⟩
      let negative : Duration := ⟨1, -1001000000⟩
      borrowed.normalize = ⟨-1, -999999999⟩ ∧ borrowed.normalize.total = borrowed.total
      ∧ most.normalize.seconds = Int64.maxValue
      ∧ negative.toUnsigned = .error negative
      ∧ (ofUnsigned 9223372036854775807 999999999).toUnsigned
        = .ok (9223372036854775807, 999999999) := by
  intro borrowed most negative
  obtain ⟨normalized, back⟩ := spans_normalize_exactly
  refine ⟨by decide, ?_, ?_, ?_, back _ _ (by decide) (by decide)⟩
  · exact (normalized borrowed).2.2.1 (by decide)
  · exact (normalized most).2.2.2.2.1 (by decide)
  · rcases (normalized negative).2.2.2.2.2.2 with ⟨forwards, -⟩ | ⟨-, refused⟩
    · exact absurd forwards (by decide)
    · exact refused

end Duration

end Protobuf.Time
