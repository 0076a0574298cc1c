import Protobuf.Text.Quoted

/-! The ways in which points in time and spans of time have no text, and texts denote none.
-/

namespace Protobuf.Time

/-- Why a time was refused. -/
inductive TimeError where
  | secondsOutOfRange (seconds : Int)
  | nanosOutOfRange (nanos : Int)
  | differentSigns
  | notDuration (text : String)
  | tooManyDigits (text : String)
  | textOutOfRange (text : String)
  /-- The text is no RFC 3339 time. -/
  | malformedTimestamp
deriving DecidableEq, Repr

/-- The wording of a time error; a malformed timestamp has no fixed wording. -/
def TimeError.message? : TimeError → Option String
  | .secondsOutOfRange seconds => some ("seconds " ++ toString seconds ++ " out of range")
  | .nanosOutOfRange nanos => some ("nanos " ++ toString nanos ++ " out of range")
  | .differentSigns => some "seconds and nanos have different signs"
  | .notDuration text => some (Text.quoted text ++ " is not a duration")
  | .tooManyDigits text => some (Text.quoted text ++ " has more than nine fractional digits")
  | .textOutOfRange text => some (Text.quoted text ++ " out of range")
  | .malformedTimestamp => none

end Protobuf.Time
