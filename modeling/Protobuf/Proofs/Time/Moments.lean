import Protobuf.Proofs.Time.Calendar
import Protobuf.Proofs.Time.Normalization
import Protobuf.Time.Timestamp

/-! Points in time from other clocks.  An offset ahead of the epoch or back from it, and a moment of
a calendar, give the point whose nanoseconds are less than a second and that has the same
nanoseconds in all.  So a second is borrowed for an offset back only where it has a fraction, and
whole seconds are carried out of nanoseconds of any size or sign on the way through a calendar.
-/

namespace Protobuf.Time

namespace Timestamp

/-- The nanoseconds since the epoch in all. -/
def total (t : Timestamp) : Int :=
  t.seconds.toInt * nanosPerSecond + t.nanos.toInt

/-- The nanoseconds count on from the last whole second. -/
def IsNormal (t : Timestamp) : Prop :=
  0 ≤ t.nanos.toInt ∧ t.nanos.toInt < nanosPerSecond

instance (t : Timestamp) : Decidable t.IsNormal :=
  inferInstanceAs (Decidable (_ ∧ _))

/-- There is one point in normal form for a number of nanoseconds. -/
theorem IsNormal.eq_of_total {t t' : Timestamp} (normal : t.IsNormal) (normal' : t'.IsNormal)
    (same : t.total = t'.total)
    : t = t' := by
  obtain ⟨seconds, nanos⟩ := t
  obtain ⟨seconds', nanos'⟩ := t'
  simp only [IsNormal, total, nanosPerSecond] at normal normal' same
  have sameSeconds : seconds = seconds' := Int64.toInt_inj.mp (by omega)
  have sameNanos : nanos = nanos' := Int32.toInt_inj.mp (by omega)
  simp only [sameSeconds, sameNanos]

/-- Whole seconds and a fraction that fit into a point are the parts of that point. -/
theorem parts_ofInt (seconds nanos : Int) (inside : -2 ^ 63 ≤ seconds ∧ seconds < 2 ^ 63)
    (fraction : 0 ≤ nanos ∧ nanos < nanosPerSecond)
    : (⟨Int64.ofInt seconds, Int32.ofInt nanos⟩ : Timestamp).IsNormal
      ∧ (⟨Int64.ofInt seconds, Int32.ofInt nanos⟩ : Timestamp).total
          = seconds * nanosPerSecond + nanos := by
  simp only [nanosPerSecond] at fraction
  have exactSeconds := Int64.toInt_ofInt_of_le inside.1 inside.2
  have exactNanos := Int32.toInt_ofInt_of_le (n := nanos) (by omega) (by omega)
  simp only [IsNormal, total, exactSeconds, exactNanos, nanosPerSecond]
  exact ⟨fraction, trivial⟩

-----------------------------------------------------------------------------------------
-- Offsets from the epoch
-----------------------------------------------------------------------------------------

/-- The point at an offset, by arithmetic that gives up as soon as a result is out of range. -/
def ofOffset? (before : Bool) (seconds : UInt64) (nanos : UInt32) : Option Timestamp := do
  let whole ← int64? seconds.toNat
  let fraction ← int32? nanos.toNat
  if before then
    let back ← int64? (-whole.toInt)
    if fraction = 0 then return ⟨back, fraction⟩
    else return ⟨← int64? (back.toInt - 1), ← int32? (1000000000 - fraction.toInt)⟩
  else return ⟨whole, fraction⟩

/-- The nanoseconds of an offset, less than nothing for one back from the epoch. -/
def offsetTotal (before : Bool) (seconds : UInt64) (nanos : UInt32) : Int :=
  (if before then -1 else 1) * (seconds.toNat * nanosPerSecond + nanos.toNat)

theorem toInt64_eq_ofInt (n : UInt64)
    : n.toInt64 = Int64.ofInt n.toNat := by
  rw [Int64.ofInt_eq_ofNat, ← UInt64.toInt64_ofNat', UInt64.ofNat_toNat]

theorem toInt32_eq_ofInt (n : UInt32)
    : n.toInt32 = Int32.ofInt n.toNat := by
  rw [Int32.ofInt_eq_ofNat, ← UInt32.toInt32_ofNat', UInt32.ofNat_toNat]

/-- No step of the arithmetic leaves its range, and the point is the whole seconds of the offset and
the fraction behind them.  The cases are those of the arithmetic: back with and without a fraction,
and ahead.
-/
theorem ofOffset_divides (before : Bool) {seconds : UInt64} {nanos : UInt32}
    (inside : seconds.toNat < 2 ^ 63) (less : nanos.toNat < 1000000000)
    : ∃ whole fraction : Int, (-2 ^ 63 ≤ whole ∧ whole < 2 ^ 63)
      ∧ (0 ≤ fraction ∧ fraction < nanosPerSecond)
      ∧ ofOffset? before seconds nanos = some ⟨Int64.ofInt whole, Int32.ofInt fraction⟩
      ∧ ofOffset before seconds nanos = ⟨Int64.ofInt whole, Int32.ofInt fraction⟩
      ∧ offsetTotal before seconds nanos = whole * nanosPerSecond + fraction := by
  have none : nanos = 0 ↔ nanos.toNat = 0 := UInt32.toNat_inj.symm
  unfold ofOffset offsetTotal
  simp only [toInt64_eq_ofInt, toInt32_eq_ofInt, none, nanosPerSecond]
  have secondsFit := int64?_eq (n := seconds.toNat) (by omega) (by omega)
  have nanosFit := int32?_eq (n := nanos.toNat) (by omega) (by omega)
  have exactSeconds := Int64.toInt_ofInt_of_le (n := seconds.toNat) (by omega) (by omega)
  have exactNanos := Int32.toInt_ofInt_of_le (n := nanos.toNat) (by omega) (by omega)
  have zero : Int32.ofInt nanos.toNat = 0 ↔ nanos.toNat = 0 := by
    rw [← Int32.toInt_inj, exactNanos]
    exact Int.natCast_eq_zero
  simp only [ofOffset?, secondsFit, nanosFit, exactSeconds, exactNanos, zero, Option.bind_eq_bind,
    Option.bind_some]
  cases before with
  | false => exact ⟨seconds.toNat, nanos.toNat, by omega, by omega, rfl, rfl, Int.one_mul _⟩
  | true =>
      have backFits := int64?_eq (n := -seconds.toNat) (by omega) (by omega)
      have exactBack := Int64.toInt_ofInt_of_le (n := -seconds.toNat) (by omega) (by omega)
      simp only [if_true, backFits, exactBack, Option.bind_some]
      by_cases whole : nanos.toNat = 0
      · refine ⟨-seconds.toNat, nanos.toNat, by omega, by omega, if_pos whole, ?_, by omega⟩
        rw [if_pos whole, whole, Int64.ofInt_neg]
        rfl
      · refine ⟨-seconds.toNat - 1, 1000000000 - nanos.toNat, by omega, by omega, ?_, ?_, by omega⟩
        · rw [if_neg whole, int64?_eq (by omega) (by omega), int32?_eq (by omega) (by omega)]
          rfl
        · rw [if_neg whole, Int64.ofInt_sub, Int64.ofInt_neg, Int32.ofInt_sub]
          rfl

/-- The point at an offset has its nanoseconds, of which less than a second behind the seconds. -/
theorem ofOffset_exact (before : Bool) {seconds : UInt64} {nanos : UInt32}
    (inside : seconds.toNat < 2 ^ 63) (less : nanos.toNat < 1000000000)
    : ofOffset? before seconds nanos = some (ofOffset before seconds nanos)
      ∧ (ofOffset before seconds nanos).IsNormal
      ∧ (ofOffset before seconds nanos).total = offsetTotal before seconds nanos := by
  obtain ⟨whole, fraction, fits, below, checked, point, sum⟩ := ofOffset_divides before inside less
  obtain ⟨normal, exact⟩ := parts_ofInt whole fraction fits below
  rw [point]
  exact ⟨checked, normal, exact.trans sum.symm⟩

end Timestamp

-----------------------------------------------------------------------------------------
-- Moments of a calendar
-----------------------------------------------------------------------------------------

/-- A number of nanoseconds since the epoch lies in a year from -9999 to 9999. -/
def InReach (total : Int) : Prop :=
  Timestamp.calendarMinSeconds * nanosPerSecond ≤ total
  ∧ total < (Timestamp.maxSeconds + 1) * nanosPerSecond

instance (total : Int) : Decidable (InReach total) :=
  inferInstanceAs (Decidable (_ ∧ _))

/-- The whole seconds of such a number are those that the calendar reaches. -/
theorem inReach_iff (total : Int)
    : InReach total ↔ Timestamp.calendarMinSeconds ≤ total / nanosPerSecond
        ∧ total / nanosPerSecond ≤ Timestamp.maxSeconds := by
  simp only [InReach, Timestamp.calendarMinSeconds, Timestamp.maxSeconds, nanosPerSecond]
  omega

/-- A type of moments that knows each one by its nanoseconds since the epoch, as far as the calendar
reaches, and tells the whole seconds of a moment and the nanoseconds behind them.
-/
structure Clock (Moment : Type) where
  moment? : Int → Option Moment
  seconds : Moment → Int
  nanosecond : Moment → Nat
  isSome_moment? : ∀ total, (moment? total).isSome ↔ InReach total
  exact : ∀ total m, moment? total = some m → seconds m * nanosPerSecond + nanosecond m = total
  less : ∀ m, nanosecond m < 1000000000

namespace Clock

variable {Moment : Type} (clock : Clock Moment)

/-- The moment of a point in time, if the calendar reaches it. -/
def ofTimestamp? (t : Timestamp) : Option Moment :=
  clock.moment? (t.seconds.toInt * nanosPerSecond + t.nanos.toInt)

/-- The point in time of a moment. -/
def timestamp (m : Moment) : Timestamp :=
  ⟨Int64.ofInt (clock.seconds m), Int32.ofInt (clock.nanosecond m)⟩

variable {clock}

/-- The seconds of a moment fit into a point, since the calendar ends long before their range. -/
theorem timestamp_of_moment? {total : Int} {m : Moment} (h : clock.moment? total = some m)
    : (clock.timestamp m).IsNormal ∧ (clock.timestamp m).total = total := by
  have reached : InReach total := (clock.isSome_moment? total).mp (by rw [h]; rfl)
  have sum := clock.exact total m h
  have less := clock.less m
  simp only [InReach, Timestamp.calendarMinSeconds, Timestamp.maxSeconds, nanosPerSecond]
    at reached sum
  obtain ⟨normal, exact⟩ := Timestamp.parts_ofInt (clock.seconds m) (clock.nanosecond m)
    (by omega) ⟨Int.natCast_nonneg _, Int.ofNat_lt.mpr less⟩
  exact ⟨normal, exact.trans sum⟩

end Clock

/-- A moment in UTC: a date that exists, the second of the day and the nanosecond of the second. -/
structure UtcMoment where
  date : Date
  second : Nat
  nanosecond : Nat
  valid : date.isValid
  inDay : second < 86400
  inSecond : nanosecond < 1000000000

/-- The clock of the proleptic Gregorian calendar in UTC. -/
def Clock.utc : Clock UtcMoment where
  moment? total :=
    if InReach total then
      some {
        date := Date.ofDayNumber (total / nanosPerSecond / 86400 + Date.epoch)
        second := (total / nanosPerSecond % 86400).toNat
        nanosecond := (total % nanosPerSecond).toNat
        valid := (Date.ofDayNumber_spec _).1
        inDay := by omega
        inSecond := by
          rw [nanosPerSecond]
          omega
      }
    else none
  seconds m := (m.date.dayNumber - Date.epoch) * 86400 + m.second
  nanosecond m := m.nanosecond
  isSome_moment? total := by
    by_cases reached : InReach total <;> simp [reached]
  exact total m found := by
    split at found
    · cases found
      have number := (Date.ofDayNumber_spec (total / nanosPerSecond / 86400 + Date.epoch)).2
      simp only [number]
      simp only [nanosPerSecond]
      omega
    · cases found
  less m := m.inSecond

namespace Timestamp

/-- A point that the calendar reaches has a normal form with the same total, and another has none.
-/
theorem canonical?_cases (t : Timestamp)
    : (InReach t.total ∧ ∃ t', t.canonical? = some t' ∧ t'.IsNormal ∧ t'.total = t.total)
      ∨ (¬InReach t.total ∧ t.canonical? = none) := by
  have reach := inReach_iff t.total
  by_cases reached : InReach t.total
  · refine .inl ⟨reached, _, if_pos (reach.mp reached), ?_⟩
    have divided := Int.ediv_mul_add_emod t.total nanosPerSecond
    obtain ⟨low, high⟩ := reach.mp reached
    simp only [calendarMinSeconds, maxSeconds] at low high
    obtain ⟨normal, exact⟩ := parts_ofInt (t.total / nanosPerSecond) (t.total % nanosPerSecond)
      (by omega) ⟨Int.emod_nonneg _ (by decide), Int.emod_lt_of_pos _ (by decide)⟩
    exact ⟨normal, exact.trans divided⟩
  · exact .inr ⟨reached, if_neg (reach.not.mp reached)⟩

/-- The way through the moments of any clock leads to the normal form. -/
theorem map_timestamp_ofTimestamp? {Moment : Type} (clock : Clock Moment) (t : Timestamp)
    : (clock.ofTimestamp? t).map clock.timestamp = t.canonical? := by
  have reach := clock.isSome_moment? t.total
  change (clock.moment? t.total).map clock.timestamp = _
  rcases t.canonical?_cases with ⟨reached, t', canonical, normal, same⟩ | ⟨beyond, none⟩
  · obtain ⟨m, found⟩ := Option.isSome_iff_exists.mp (reach.mpr reached)
    obtain ⟨normal', same'⟩ := Clock.timestamp_of_moment? found
    have equal : clock.timestamp m = t' := normal'.eq_of_total normal (same'.trans same.symm)
    rw [found, canonical, Option.map_some, equal]
  · rw [none, Option.not_isSome_iff_eq_none.mp (reach.not.mpr beyond), Option.map_none]

/-- Offsets and moments are turned into points exactly.  No step of the arithmetic for an offset of
less than 2^63 seconds leaves its range, and the point has the nanoseconds of the offset in all and
less than a second of them behind its seconds.  A point is lost on the way through the moments of a
clock if and only if the calendar does not reach its total; else it comes back as the only point of
that total whose nanoseconds are less than a second.
-/
theorem conversions_divide_exactly
    : (∀ (before : Bool) (seconds : UInt64) (nanos : UInt32), seconds.toNat < 2 ^ 63
        → nanos.toNat < 1000000000
        → ofOffset? before seconds nanos = some (ofOffset before seconds nanos)
          ∧ (ofOffset before seconds nanos).IsNormal
          ∧ (ofOffset before seconds nanos).total = offsetTotal before seconds nanos)
      ∧ ∀ {Moment : Type} (clock : Clock Moment) (t : Timestamp),
          (clock.ofTimestamp? t).map clock.timestamp = t.canonical?
          ∧ (clock.ofTimestamp? t = none ↔ ¬InReach t.total)
          ∧ ∀ t', (clock.ofTimestamp? t).map clock.timestamp = some t'
              ↔ InReach t.total ∧ t'.IsNormal ∧ t'.total = t.total := by
  refine ⟨fun before seconds nanos => ofOffset_exact before, fun clock t => ?_⟩
  have back := map_timestamp_ofTimestamp? clock t
  refine ⟨back, ?_, fun t' => ?_⟩
  · rw [← clock.isSome_moment? t.total, Option.not_isSome_iff_eq_none]
    rfl
  · rw [back]
    rcases t.canonical?_cases with ⟨reached, normalized, canonical, normal, same⟩ | ⟨beyond, none⟩
    · rw [canonical, Option.some_inj]
      constructor
      · rintro rfl
        exact ⟨reached, normal, same⟩
      · rintro ⟨-, normal', same'⟩
        exact normal.eq_of_total normal' (same.trans same'.symm)
    · rw [none]
      constructor
      · nofun
      · rintro ⟨reached, -, -⟩
        exact absurd reached beyond

/-- The farthest offset back borrows the last second of the range, more than a second of negative
nanoseconds is carried on the way through the calendar, and the first second past the year 9999 is
lost.
-/
theorem conversions_divide_exactly_limits
    : let farthest := ofOffset true 9223372036854775807 1
      let late : Timestamp := ⟨Int64.ofInt maxSeconds, 1000000000⟩
      farthest = ⟨Int64.minValue, 999999999⟩
      ∧ ofOffset? true 9223372036854775807 1 = some farthest
      ∧ farthest.total = -9223372036854775807000000001
      ∧ (Clock.utc.ofTimestamp? ⟨-2, -1500000000⟩).map Clock.utc.timestamp = some ⟨-4, 500000000⟩
      ∧ Clock.utc.ofTimestamp? late = none := by
  intro farthest late
  obtain ⟨offsets, moments⟩ := conversions_divide_exactly
  obtain ⟨checked, -, sum⟩ := offsets true 9223372036854775807 1 (by decide) (by decide)
  obtain ⟨-, -, back⟩ := moments Clock.utc ⟨-2, -1500000000⟩
  obtain ⟨-, lost, -⟩ := moments Clock.utc late
  exact ⟨by decide, checked, sum.trans (by decide +kernel), (back _).mpr (by decide),
    lost.mpr (by decide)⟩

end Timestamp

end Protobuf.Time
