import Protobuf.Proofs.Time.Calendar
import Protobuf.Proofs.Time.Fraction

/-! The texts of points in time.  A text is a local date and time with a fraction of a second, and
the zone that tells how far it is ahead of UTC; what is written is read again, and another zone
shifts what is read.
-/

namespace Protobuf.Time

open Text

-----------------------------------------------------------------------------------------
-- Texts in their parts
-----------------------------------------------------------------------------------------

/-- The text of a local date and time in its parts: a date of four-digit years, any ASCII character,
a time of day whose seconds are only known to be two digits, and a fraction of a second.
-/
structure ClockText where
  date : Date
  separator : Char
  hour : Nat
  minute : Nat
  second : Nat
  fraction : Option (List Char)
  valid : date.isValid
  year : 0 ≤ date.year ∧ date.year ≤ 9999
  ascii : separator.toNat < 128
  hours : hour < 24
  minutes : minute < 60
  seconds : second < 100
  legal : IsFraction fraction

/-- The text of a zone that is ahead of UTC or behind it by so many hours and minutes. -/
def zoneText (ahead : Bool) (hour minute : Nat) : List Char :=
  (if ahead then '+' else '-') :: (paddedDigits 2 hour ++ ':' :: paddedDigits 2 minute)

/-- The seconds by which a zone is ahead of UTC. -/
def zoneSeconds (ahead : Bool) (hour minute : Nat) : Int :=
  (if ahead then 1 else -1) * (hour * 3600 + minute * 60)

namespace ClockText

/-- The text that the parts make up, without a zone. -/
def chars (c : ClockText) : List Char :=
  paddedDigits 4 c.date.year.toNat ++ '-' :: (paddedDigits 2 c.date.month
    ++ '-' :: (paddedDigits 2 c.date.day ++ c.separator :: (paddedDigits 2 c.hour
    ++ ':' :: (paddedDigits 2 c.minute ++ ':' :: (paddedDigits 2 c.second ++ pointed c.fraction)))))

/-- The digits behind the point. -/
def decimals (c : ClockText) : List Char :=
  c.fraction.getD []

/-- The seconds from the epoch to the minute, as if the time were UTC. -/
def minuteStart (c : ClockText) : Int :=
  (c.date.dayNumber - Date.epoch) * 86400 + c.hour * 3600 + c.minute * 60

/-- The nanoseconds, of which there are as many as the first nine digits tell. -/
def nanos (c : ClockText) : Nat :=
  nanosOfDigits (c.decimals.take 9)

/-- What is read from the text with a zone that is so far ahead of UTC. -/
def readAhead (c : ClockText) (offset : Int) : Option (Int × Nat) :=
  if c.second < 60 then some (c.minuteStart - offset + c.second, c.nanos)
  else if c.second = 60 ∧ Timestamp.endsMonth (c.minuteStart - offset + 59) then
    some (c.minuteStart - offset + 59, 999999999)
  else none

end ClockText

-----------------------------------------------------------------------------------------
-- Reading
-----------------------------------------------------------------------------------------

namespace Timestamp

theorem takeDate_text {date : Date} (valid : date.isValid) (year : 0 ≤ date.year ∧ date.year ≤ 9999)
    {separator : Char} (ascii : separator.toNat < 128) (rest : List Char)
    : takeDate (paddedDigits 4 date.year.toNat ++ '-' :: (paddedDigits 2 date.month
          ++ '-' :: (paddedDigits 2 date.day ++ separator :: rest)))
        = some (date, rest) := by
  obtain ⟨month, day⟩ := Date.isValid_bounds valid
  have same : (⟨(date.year.toNat : Int), date.month, date.day⟩ : Date) = date := by
    rw [Int.toNat_of_nonneg year.1]
  simp only [takeDate, takeDigits_paddedDigits (show date.year.toNat < 10 ^ 4 by omega),
    takeDigits_paddedDigits (show date.month < 10 ^ 2 by omega),
    takeDigits_paddedDigits (show date.day < 10 ^ 2 by omega), expectChar_cons,
    Option.bind_eq_bind, Option.bind_some, same, valid, ascii, and_self, if_true]

theorem eq_of_takeDate {text rest : List Char} {date : Date} (h : takeDate text = some (date, rest))
    : date.isValid ∧ (0 ≤ date.year ∧ date.year ≤ 9999)
      ∧ ∃ separator : Char, separator.toNat < 128
        ∧ text = paddedDigits 4 date.year.toNat ++ '-' :: (paddedDigits 2 date.month
          ++ '-' :: (paddedDigits 2 date.day ++ separator :: rest)) := by
  simp only [takeDate, Option.bind_eq_bind, Option.bind_eq_some_iff, Prod.exists] at h
  obtain ⟨year, _, years, _, dash, month, _, months, _, dash', day, others, days, h⟩ := h
  obtain ⟨small, rfl⟩ := eq_of_takeDigits years
  cases eq_of_expectChar dash
  obtain ⟨-, rfl⟩ := eq_of_takeDigits months
  cases eq_of_expectChar dash'
  obtain ⟨-, rfl⟩ := eq_of_takeDigits days
  cases others with
  | nil => cases h
  | cons separator others =>
      simp only at h
      split at h
      · rename_i legal
        cases h
        refine ⟨legal.1, ⟨Int.natCast_nonneg _, by simp only; omega⟩, separator, legal.2, ?_⟩
        rw [Int.toNat_natCast]
      · cases h

theorem takeHourMinute_text {hour minute : Nat} (hours : hour < 24) (minutes : minute < 60)
    (rest : List Char)
    : takeHourMinute (paddedDigits 2 hour ++ ':' :: (paddedDigits 2 minute ++ rest))
        = some (hour, minute, rest) := by
  simp only [takeHourMinute, takeDigits_paddedDigits (show hour < 10 ^ 2 by omega),
    takeDigits_paddedDigits (show minute < 10 ^ 2 by omega), expectChar_cons, Option.bind_eq_bind,
    Option.bind_some, hours, minutes, and_self, if_true]

theorem eq_of_takeHourMinute {text rest : List Char} {hour minute : Nat}
    (h : takeHourMinute text = some (hour, minute, rest))
    : hour < 24 ∧ minute < 60
      ∧ text = paddedDigits 2 hour ++ ':' :: (paddedDigits 2 minute ++ rest) := by
  simp only [takeHourMinute, Option.bind_eq_bind, Option.bind_eq_some_iff, Prod.exists] at h
  obtain ⟨_, _, hours, _, colon, _, _, minutes, h⟩ := h
  obtain ⟨-, rfl⟩ := eq_of_takeDigits hours
  cases eq_of_expectChar colon
  obtain ⟨-, rfl⟩ := eq_of_takeDigits minutes
  split at h
  · rename_i legal
    cases h
    exact ⟨legal.1, legal.2, rfl⟩
  · cases h

/-- A date and a time are read up to the zone. -/
theorem parseRfc3339_chars (c : ClockText) {zone : List Char}
    (stops : ∀ c ∈ zone.head?, c ≠ '.' ∧ c.isDigit = false)
    : parseRfc3339 (c.chars ++ zone) = (zoneOffset zone).bind c.readAhead := by
  simp only [ClockText.chars, List.append_assoc, List.cons_append, parseRfc3339,
    takeDate_text c.valid c.year c.ascii, takeHourMinute_text c.hours c.minutes,
    takeDigits_paddedDigits (show c.second < 10 ^ 2 from c.seconds), expectChar_cons,
    takeFraction_pointed c.legal zone stops, Option.bind_eq_bind, Option.bind_some]
  rfl

/-- What is read as a point in time is a date and a time with a zone. -/
theorem eq_of_parseRfc3339 {text : List Char} {result : Int × Nat}
    (h : parseRfc3339 text = some result)
    : ∃ (c : ClockText) (zone : List Char), text = c.chars ++ zone ∧ (zoneOffset zone).isSome := by
  simp only [parseRfc3339, Option.bind_eq_bind, Option.bind_eq_some_iff, Prod.exists] at h
  obtain ⟨date, _, dated, hour, minute, _, clock, _, colon, second, _, seconds, nanos, zone, behind,
    offset, zoned, -⟩ := h
  obtain ⟨valid, year, separator, ascii, rfl⟩ := eq_of_takeDate dated
  obtain ⟨hours, minutes, rfl⟩ := eq_of_takeHourMinute clock
  cases eq_of_expectChar colon
  obtain ⟨small, rfl⟩ := eq_of_takeDigits seconds
  obtain ⟨fraction, legal, rfl⟩ := eq_of_takeFraction behind
  refine ⟨⟨date, separator, hour, minute, second, fraction, valid, year, ascii, hours, minutes,
    small, legal⟩, zone, ?_, Option.isSome_of_eq_some zoned⟩
  simp only [ClockText.chars, List.append_assoc, List.cons_append]

-----------------------------------------------------------------------------------------
-- Zones
-----------------------------------------------------------------------------------------

theorem zoneOffset_zoneText {hour minute : Nat} (hours : hour < 24) (minutes : minute < 60)
    (ahead : Bool)
    : zoneOffset (zoneText ahead hour minute) = some (zoneSeconds ahead hour minute) := by
  have read := takeHourMinute_text hours minutes []
  rw [List.append_nil] at read
  cases ahead with
  | true => simp [zoneText, zoneOffset, zoneSeconds, read]
  | false => simp [zoneText, zoneOffset, zoneSeconds, read]

/-- A zone is UTC, under either letter, or a number of hours and minutes. -/
theorem zone_cases {zone : List Char} (h : (zoneOffset zone).isSome)
    : zone = ['Z'] ∨ zone = ['z']
      ∨ ∃ ahead hour minute, hour < 24 ∧ minute < 60 ∧ zone = zoneText ahead hour minute := by
  unfold zoneOffset at h
  split at h
  · exact .inl rfl
  · exact .inr (.inl rfl)
  · split at h
    · rename_i hour minute read
      obtain ⟨hours, minutes, rfl⟩ := eq_of_takeHourMinute read
      exact .inr (.inr ⟨true, hour, minute, hours, minutes, by simp [zoneText]⟩)
    · cases h
  · split at h
    · rename_i hour minute read
      obtain ⟨hours, minutes, rfl⟩ := eq_of_takeHourMinute read
      exact .inr (.inr ⟨false, hour, minute, hours, minutes, by simp [zoneText]⟩)
    · cases h
  · cases h

/-- A zone of hours and minutes ends in a digit. -/
theorem getLast?_zoneText (ahead : Bool) (hour minute : Nat)
    : (zoneText ahead hour minute).getLast? = some (digitChar minute) := by
  have last : zoneText ahead hour minute
      = ((if ahead then '+' else '-')
        :: (paddedDigits 2 hour ++ ':' :: paddedDigits 1 (minute / 10)))
        ++ [digitChar minute] := by
    simp [zoneText, paddedDigits]
  rw [last, List.getLast?_append]
  rfl

/-- A text with a zone that ends in the letter is the date and time with the letter behind it. -/
theorem eq_of_utc {c : ClockText} {zone body : List Char} (legal : (zoneOffset zone).isSome)
    (same : c.chars ++ zone = body ++ ['Z'])
    : body = c.chars ∧ zone = ['Z'] := by
  have nonempty : zone ≠ [] := by
    rintro rfl
    cases legal
  have last : zone.getLast? = some 'Z' := by
    have ends := congrArg List.getLast? same
    rw [List.getLast?_append, List.getLast?_append, List.getLast?_eq_some_getLast nonempty] at ends
    rw [List.getLast?_eq_some_getLast nonempty]
    exact ends
  have utc : zone = ['Z'] := by
    rcases zone_cases legal with same | rfl | ⟨ahead, hour, minute, -, -, rfl⟩
    · exact same
    · cases last
    · rw [getLast?_zoneText] at last
      have digit := (digitChar_facts minute).1
      rw [Option.some.inj last] at digit
      cases digit
  rw [utc] at same
  exact ⟨(List.append_cancel_right same).symm, utc⟩

end Timestamp

-----------------------------------------------------------------------------------------
-- The second of a text
-----------------------------------------------------------------------------------------

/-- The two characters at the place of the seconds. -/
def secondField (text : List Char) : List Char :=
  (text.drop 17).take 2

theorem secondField_chars (c : ClockText)
    : secondField c.chars = paddedDigits 2 c.second := by
  have front : c.chars = (paddedDigits 4 c.date.year.toNat ++ '-' :: (paddedDigits 2 c.date.month
      ++ '-' :: (paddedDigits 2 c.date.day ++ c.separator :: (paddedDigits 2 c.hour
      ++ ':' :: (paddedDigits 2 c.minute ++ [':'])))))
      ++ (paddedDigits 2 c.second ++ pointed c.fraction) := by
    simp [ClockText.chars]
  rw [front, secondField, List.drop_left' (by simp [length_paddedDigits]),
    List.take_left' (length_paddedDigits _ _)]

/-- A second below 60 is read as it stands, and shifts with the zone. -/
theorem ClockText.readAhead_of_ne {c : ClockText} {offset : Int} {result : Int × Nat}
    (regular : c.second ≠ 60) (read : c.readAhead offset = some result) (other : Int)
    : c.readAhead other = some (result.1 + offset - other, result.2) := by
  unfold ClockText.readAhead at read ⊢
  split at read
  · rename_i small
    cases read
    rw [if_pos small]
    congr 2
    omega
  · split at read
    · rename_i leap
      exact absurd leap.1 regular
    · cases read

-----------------------------------------------------------------------------------------
-- Writing
-----------------------------------------------------------------------------------------

namespace Timestamp

/-- What can be written: the seconds of the years from 1 to 9999, and nanoseconds below a second. -/
structure Proper (t : Timestamp) : Prop where
  seconds : minSeconds ≤ t.seconds.toInt ∧ t.seconds.toInt ≤ maxSeconds
  nanos : 0 ≤ t.nanos.toInt ∧ t.nanos.toInt < 1000000000

/-- The text is the date and time of the point in UTC. -/
structure Shows (c : ClockText) (t : Timestamp) : Prop where
  separator : c.separator = 'T'
  year : 1 ≤ c.date.year
  second : c.second < 60
  seconds : c.minuteStart + c.second = t.seconds.toInt
  nanos : ShowsNanos c.decimals t.nanos.toInt.toNat

theorem Shows.nanos_eq {c : ClockText} {t : Timestamp} (h : Shows c t)
    : c.nanos = t.nanos.toInt.toNat := by
  have short : c.decimals.length ≤ 9 := by
    have places := h.nanos.places
    simp only [List.mem_cons, List.not_mem_nil, or_false] at places
    omega
  rw [ClockText.nanos, List.take_of_length_le short, h.nanos.exact]

/-- A proper point in time is written as its date and time in UTC. -/
theorem exists_of_proper {t : Timestamp} (proper : t.Proper)
    : ∃ c : ClockText, t.text = .ok (String.ofList (c.chars ++ ['Z'])) ∧ Shows c t := by
  obtain ⟨⟨low, high⟩, positive, small⟩ := proper
  simp only [minSeconds] at low
  simp only [maxSeconds] at high
  obtain ⟨fraction, spelled, legal, shows⟩ :=
    exists_fraction (show t.nanos.toInt.toNat < 1000000000 by omega)
  generalize days : t.seconds.toInt / 86400 + Date.epoch = day
  obtain ⟨valid, number⟩ := Date.ofDayNumber_spec day
  have year : 1 ≤ (Date.ofDayNumber day).year ∧ (Date.ofDayNumber day).year ≤ 9999 := by
    simp only [Date.epoch] at days
    exact Date.year_ofDayNumber (by omega) (by omega)
  generalize clock : (t.seconds.toInt % 86400).toNat = second
  have inside : second < 86400 := by omega
  refine ⟨⟨Date.ofDayNumber day, 'T', second / 3600, second / 60 % 60, second % 60, fraction, valid,
    ⟨by omega, year.2⟩, by decide, by omega, by omega, by omega, legal⟩, ?_, rfl,
      year.1, by simp only; omega,
    ?_, shows⟩
  · have range : ¬(t.seconds.toInt < minSeconds ∨ maxSeconds < t.seconds.toInt) := by
      simp only [minSeconds, maxSeconds]
      omega
    have parts : ¬(t.nanos.toInt < 0 ∨ nanosPerSecond ≤ t.nanos.toInt) := by
      simp only [nanosPerSecond]
      omega
    simp only [Timestamp.text, range, parts, if_false, days, clock, spelled, ClockText.chars,
      List.append_assoc, List.cons_append]
  · simp only [ClockText.minuteStart, number]
    simp only [Date.epoch] at days ⊢
    omega

theorem proper_of_text {t : Timestamp} {text : String} (written : t.text = .ok text)
    : t.Proper := by
  unfold Timestamp.text at written
  dsimp only at written
  split at written
  · cases written
  rename_i range
  split at written
  · cases written
  rename_i parts
  simp only [nanosPerSecond] at parts
  exact ⟨by omega, by omega⟩

/-- A point in time is read from its text. -/
theorem ofText_text {t : Timestamp} {text : String} (written : t.text = .ok text)
    : ofText text = .ok t := by
  have proper := proper_of_text written
  obtain ⟨c, same, shows⟩ := exists_of_proper proper
  cases same.symm.trans written
  have read : parseRfc3339 (c.chars ++ ['Z']) = some (t.seconds.toInt, t.nanos.toInt.toNat) := by
    rw [parseRfc3339_chars c (by rintro _ ⟨⟩; decide)]
    simp only [zoneOffset, Option.bind_some, ClockText.readAhead, if_pos shows.second,
      shows.nanos_eq]
    rw [Int.sub_zero, shows.seconds]
  have range : ¬(t.seconds.toInt < minSeconds ∨ maxSeconds < t.seconds.toInt) := by
    have seconds := proper.seconds
    omega
  simp only [ofText, String.toList_ofList, read, range, if_false]
  rw [Int.toNat_of_nonneg proper.nanos.1, Int64.ofInt_toInt, Int32.ofInt_toInt]

-----------------------------------------------------------------------------------------
-- Shifting
-----------------------------------------------------------------------------------------

/-- A date and time without a leap second is read in another zone as the point in UTC less the
offset, if that is in range.
-/
theorem ofText_shifted {c : ClockText} {t : Timestamp} (regular : c.second ≠ 60)
    (read : ofText (String.ofList (c.chars ++ ['Z'])) = .ok t) (ahead : Bool) {hour minute : Nat}
    (hours : hour < 24) (minutes : minute < 60)
    : let shifted := t.seconds.toInt - zoneSeconds ahead hour minute
      let text := String.ofList (c.chars ++ zoneText ahead hour minute)
      (minSeconds ≤ shifted ∧ shifted ≤ maxSeconds
        → ∃ t', ofText text = .ok t' ∧ t'.seconds.toInt = shifted ∧ t'.nanos = t.nanos)
      ∧ (shifted < minSeconds ∨ maxSeconds < shifted
        → ofText text = .error (.textOutOfRange text)) := by
  have exact (n : Int) (range : minSeconds ≤ n ∧ n ≤ maxSeconds) : (Int64.ofInt n).toInt = n := by
    simp only [minSeconds, maxSeconds] at range
    exact Int64.toInt_ofInt_of_le (by omega) (by omega)
  have utc : parseRfc3339 (c.chars ++ ['Z']) = c.readAhead 0 :=
    parseRfc3339_chars c (by rintro _ ⟨⟩; decide)
  have zoned : parseRfc3339 (c.chars ++ zoneText ahead hour minute)
      = c.readAhead (zoneSeconds ahead hour minute) := by
    rw [parseRfc3339_chars c, zoneOffset_zoneText hours minutes, Option.bind_some]
    cases ahead <;> (rintro _ ⟨⟩; decide)
  simp only [ofText, String.toList_ofList, utc] at read
  split at read
  · cases read
  rename_i seconds nanos denoted
  split at read
  · cases read
  rename_i range
  cases read
  rw [c.readAhead_of_ne regular denoted, Int.add_zero] at zoned
  simp only [ofText, String.toList_ofList, zoned, exact seconds (by omega)]
  constructor
  · intro inside
    refine ⟨⟨Int64.ofInt (seconds - zoneSeconds ahead hour minute), Int32.ofInt nanos⟩, ?_,
      exact _ inside, rfl⟩
    rw [if_neg (by omega)]
  · intro outside
    rw [if_pos outside]

/-- The points in time that are written are the proper ones, each as its date and time in UTC, and
the text is read as the point.  A text in UTC without a leap second that is read denotes, in the
zone of an offset, the point less the offset, and is refused if that is out of range.
-/
theorem timestamps_return
    : (∀ t : Timestamp, t.Proper → ∃ c : ClockText, Shows c t
        ∧ t.text = .ok (String.ofList (c.chars ++ ['Z']))
        ∧ ofText (String.ofList (c.chars ++ ['Z'])) = .ok t)
      ∧ (∀ t : Timestamp, ¬t.Proper → ∃ e, t.text = .error e)
      ∧ ∀ body t, ofText (String.ofList (body ++ ['Z'])) = .ok t → secondField body ≠ ['6', '0']
        → ∀ ahead hour minute, hour < 24 → minute < 60 →
          let shifted := t.seconds.toInt - zoneSeconds ahead hour minute
          let text := String.ofList (body ++ zoneText ahead hour minute)
          (minSeconds ≤ shifted ∧ shifted ≤ maxSeconds
            → ∃ t', ofText text = .ok t' ∧ t'.seconds.toInt = shifted ∧ t'.nanos = t.nanos)
          ∧ (shifted < minSeconds ∨ maxSeconds < shifted
            → ofText text = .error (.textOutOfRange text)) := by
  refine ⟨?_, ?_, ?_⟩
  · intro t proper
    obtain ⟨c, written, shows⟩ := exists_of_proper proper
    exact ⟨c, shows, written, ofText_text written⟩
  · intro t improper
    cases written : t.text with
    | error e => exact ⟨e, rfl⟩
    | ok text => exact absurd (proper_of_text written) improper
  · intro body t read other ahead hour minute hours minutes
    obtain ⟨c, rfl, regular⟩ : ∃ c : ClockText, body = c.chars ∧ c.second ≠ 60 := by
      cases parsed : parseRfc3339 (body ++ ['Z']) with
      | none => simp [ofText, parsed] at read
      | some result =>
          obtain ⟨c, zone, same, legal⟩ := eq_of_parseRfc3339 parsed
          obtain ⟨rfl, -⟩ := eq_of_utc legal same.symm
          refine ⟨c, rfl, fun leap => other ?_⟩
          rw [secondField_chars, leap]
          decide
    exact ofText_shifted regular read ahead hours minutes

/-- The last millisecond before 1970 is in the next minute in a zone that is a minute behind, the
first half hour of the first year is out of range in a zone that is an hour ahead, and no second
after the last year has a text.
-/
theorem timestamps_return_bounds
    : let last : Timestamp := ⟨-1, 999000000⟩
      let first : Timestamp := ⟨Int64.ofInt minSeconds + 1800, 0⟩
      let beyond : Timestamp := ⟨Int64.ofInt maxSeconds + 1, 0⟩
      (∃ c : ClockText, Shows c last ∧ last.text = .ok (String.ofList (c.chars ++ ['Z'])))
      ∧ (∃ t, ofText "1969-12-31T23:59:59.999-00:01" = .ok t ∧ t.seconds.toInt = 59
        ∧ t.nanos = 999000000)
      ∧ ofText "0001-01-01T00:30:00Z" = .ok first
      ∧ ofText "0001-01-01T00:30:00+01:00" = .error (.textOutOfRange "0001-01-01T00:30:00+01:00")
      ∧ ∃ e, beyond.text = .error e := by
  intro last first beyond
  obtain ⟨returned, refused, shifted⟩ := timestamps_return
  have behind := shifted "1969-12-31T23:59:59.999".toList last (by decide +kernel)
    (by decide +kernel)
    false 0 1 (by decide) (by decide)
  have ahead := shifted "0001-01-01T00:30:00".toList first (by decide +kernel) (by decide +kernel)
    true 1 0 (by decide) (by decide)
  refine ⟨?_, behind.1 (by decide +kernel), by decide +kernel, ahead.2 (by decide +kernel), ?_⟩
  · obtain ⟨c, shows, written, -⟩ := returned last ⟨by decide +kernel, by decide +kernel⟩
    exact ⟨c, shows, written⟩
  · exact refused beyond fun proper => absurd proper.seconds.2 (by decide +kernel)

end Timestamp

end Protobuf.Time
