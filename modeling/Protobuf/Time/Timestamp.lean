import Protobuf.Time.Calendar
import Protobuf.Time.Duration

/-! Points in time as seconds and nanoseconds since 1970-01-01T00:00:00Z, and their RFC 3339 text.
-/

namespace Protobuf.Time

/-- A point in time. -/
structure Timestamp where
  seconds : Int64
  nanos : Int32
deriving DecidableEq, Repr, Inhabited

namespace Timestamp

/-- The second 0001-01-01T00:00:00Z. -/
def minSeconds : Int := -62135596800

/-- The second 9999-12-31T23:59:59Z. -/
def maxSeconds : Int := 253402300799

/-- The second -9999-01-01T00:00:00Z, the first of the calendar's range. -/
def calendarMinSeconds : Int := -377705116800

/-- The point that lies so far after the epoch, or before it. -/
def ofOffset (before : Bool) (seconds : UInt64) (nanos : UInt32) : Timestamp :=
  if before then
    if nanos = 0 then ⟨-seconds.toInt64, 0⟩
    else ⟨-seconds.toInt64 - 1, 1000000000 - nanos.toInt32⟩
  else ⟨seconds.toInt64, nanos.toInt32⟩

/-- The same point with nanoseconds between zero and a second, if the calendar reaches it. -/
def canonical? (t : Timestamp) : Option Timestamp :=
  let total := t.seconds.toInt * nanosPerSecond + t.nanos.toInt
  let seconds := total / nanosPerSecond
  if calendarMinSeconds ≤ seconds ∧ seconds ≤ maxSeconds then
    some ⟨Int64.ofInt seconds, Int32.ofInt (total % nanosPerSecond)⟩
  else none

/-- The RFC 3339 text of a point in time in UTC. -/
def text (t : Timestamp) : Except TimeError String :=
  let seconds := t.seconds.toInt
  let nanos := t.nanos.toInt
  if seconds < minSeconds ∨ maxSeconds < seconds then .error (.secondsOutOfRange seconds)
  else if nanos < 0 ∨ nanosPerSecond ≤ nanos then .error (.nanosOutOfRange nanos)
  else
    let date := Date.ofDayNumber (seconds / 86400 + Date.epoch)
    let second := (seconds % 86400).toNat
    .ok (String.ofList
      (Text.paddedDigits 4 date.year.toNat ++ '-' :: Text.paddedDigits 2 date.month
        ++ '-' :: Text.paddedDigits 2 date.day ++ 'T' :: Text.paddedDigits 2 (second / 3600)
        ++ ':' :: Text.paddedDigits 2 (second / 60 % 60)
        ++ ':' :: Text.paddedDigits 2 (second % 60) ++ fractionText nanos.toNat ++ ['Z']))

/-- Two numbers of two digits with a colon between them. -/
def takeHourMinute (text : List Char) : Option (Nat × Nat × List Char) := do
  let (hour, text) ← Text.takeDigits 2 text
  let text ← Text.expectChar ':' text
  let (minute, text) ← Text.takeDigits 2 text
  if hour < 24 ∧ minute < 60 then some (hour, minute, text) else none

/-- A date and any ASCII character behind it. -/
def takeDate (text : List Char) : Option (Date × List Char) := do
  let (year, text) ← Text.takeDigits 4 text
  let text ← Text.expectChar '-' text
  let (month, text) ← Text.takeDigits 2 text
  let text ← Text.expectChar '-' text
  let (day, text) ← Text.takeDigits 2 text
  let date : Date := ⟨year, month, day⟩
  match text with
  | separator :: text =>
      if date.isValid ∧ separator.toNat < 128 then some (date, text) else none
  | [] => none

/-- The nanoseconds of an optional fraction; digits behind the ninth are dropped. -/
def takeFraction (text : List Char) : Option (Nat × List Char) :=
  match text with
  | '.' :: text =>
      let digits := text.takeWhile Char.isDigit
      if digits.isEmpty then none
      else some (nanosOfDigits (digits.take 9), text.dropWhile Char.isDigit)
  | text => some (0, text)

/-- The seconds by which local time is ahead of UTC, which end the text. -/
def zoneOffset (text : List Char) : Option Int :=
  match text with
  | ['Z'] => some 0
  | ['z'] => some 0
  | '+' :: text =>
      match takeHourMinute text with
      | some (hour, minute, []) => some (hour * 3600 + minute * 60)
      | _ => none
  | '-' :: text =>
      match takeHourMinute text with
      | some (hour, minute, []) => some (-(hour * 3600 + minute * 60))
      | _ => none
  | _ => none

/-- The second is the last one of a month in UTC. -/
def endsMonth (seconds : Int) : Bool :=
  seconds % 86400 == 86399 && (Date.ofDayNumber (seconds / 86400 + Date.epoch + 1)).day == 1

/-- The seconds and nanoseconds since the epoch that an RFC 3339 text denotes.  A leap second is
taken as the last nanosecond before it and is only allowed at the end of a month.
-/
def parseRfc3339 (text : List Char) : Option (Int × Nat) := do
  let (date, text) ← takeDate text
  let (hour, minute, text) ← takeHourMinute text
  let text ← Text.expectChar ':' text
  let (second, text) ← Text.takeDigits 2 text
  let (nanos, text) ← takeFraction text
  let offset ← zoneOffset text
  let minuteStart : Int :=
    (date.dayNumber - Date.epoch) * 86400 + hour * 3600 + minute * 60 - offset
  if second < 60 then some (minuteStart + second, nanos)
  else if second = 60 ∧ endsMonth (minuteStart + 59) then some (minuteStart + 59, 999999999)
  else none

/-- The point in time that an RFC 3339 text denotes. -/
def ofText (text : String) : Except TimeError Timestamp :=
  match parseRfc3339 text.toList with
  | none => .error .malformedTimestamp
  | some (seconds, nanos) =>
      if seconds < minSeconds ∨ maxSeconds < seconds then .error (.textOutOfRange text)
      else .ok ⟨Int64.ofInt seconds, Int32.ofInt nanos⟩

end Timestamp

end Protobuf.Time
