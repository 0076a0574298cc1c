import Protobuf.Number.Power
import Protobuf.Text.Digits
import Protobuf.Time.Error

/-! Spans of time as seconds and nanoseconds of one sign, their normal form, and their text, decimal
seconds with the suffix `s`.
-/

namespace Protobuf.Time

/-- A signed span of time. -/
structure Duration where
  seconds : Int64
  nanos : Int32
deriving DecidableEq, Repr, Inhabited

/-- The number of nanoseconds in a second. -/
def nanosPerSecond : Int := 1000000000

/-- The largest magnitude of a span in seconds, about ten thousand years. -/
def maxDurationSeconds : Int := 315576000000

/-- Drops groups of three zeros from the end of a number, whose digits stand last one first. -/
def dropZeros : List Char → List Char
  | '0' :: '0' :: '0' :: digits => dropZeros digits
  | digits => digits

/-- A fraction of a second as a point and three, six or nine digits, or nothing for none. -/
def fractionText (nanos : Nat) : List Char :=
  if nanos = 0 then [] else '.' :: (dropZeros (Text.paddedDigits 9 nanos).reverse).reverse

/-- The nanoseconds that up to nine digits behind a point denote: their number, ten times as large
for each digit that is missing.
-/
def nanosOfDigits (digits : List Char) : Nat :=
  (9 - digits.length).repeat (· * 10) (Text.decimalValue digits)

namespace Duration

/-- The nearest 64-bit number. -/
def saturate (n : Int) : Int :=
  if n < Int64.minValue.toInt then Int64.minValue.toInt
  else if Int64.maxValue.toInt < n then Int64.maxValue.toInt
  else n

/-- Carries whole seconds out of the nanoseconds and gives both the same sign. -/
def normalize (d : Duration) : Duration :=
  let seconds := saturate (d.seconds.toInt + d.nanos.toInt.tdiv nanosPerSecond)
  let nanos := d.nanos.toInt.tmod nanosPerSecond
  if 0 < seconds ∧ nanos < 0 then ⟨Int64.ofInt (seconds - 1), Int32.ofInt (nanos + nanosPerSecond)⟩
  else if seconds < 0 ∧ 0 < nanos then
    ⟨Int64.ofInt (seconds + 1), Int32.ofInt (nanos - nanosPerSecond)⟩
  else ⟨Int64.ofInt seconds, Int32.ofInt nanos⟩

/-- The seconds and nanoseconds of a span that is not negative; another span is given back as it is.
-/
def toUnsigned (d : Duration) : Except Duration (UInt64 × UInt32) :=
  let n := d.normalize
  if 0 ≤ n.seconds.toInt ∧ 0 ≤ n.nanos.toInt then
    .ok (UInt64.ofNat n.seconds.toInt.toNat, UInt32.ofNat n.nanos.toInt.toNat)
  else .error d

/-- The span of so many seconds and nanoseconds, with the seconds cut to the 64-bit range. -/
def ofUnsigned (seconds : UInt64) (nanos : UInt32) : Duration :=
  ⟨Int64.ofInt (saturate seconds.toNat), Int32.ofInt nanos.toNat⟩

/-- The text of a span, if it lies in the range and has one sign. -/
def text (d : Duration) : Except TimeError String :=
  let seconds := d.seconds.toInt
  let nanos := d.nanos.toInt
  if seconds < -maxDurationSeconds ∨ maxDurationSeconds < seconds then
    .error (.secondsOutOfRange seconds)
  else if nanos ≤ -nanosPerSecond ∨ nanosPerSecond ≤ nanos then .error (.nanosOutOfRange nanos)
  else if (0 < seconds ∧ nanos < 0) ∨ (seconds < 0 ∧ 0 < nanos) then .error .differentSigns
  else
    let sign := if seconds < 0 ∨ nanos < 0 then ['-'] else []
    .ok (String.ofList
      (sign ++ (toString seconds.natAbs).toList ++ fractionText nanos.natAbs ++ ['s']))

/-- The part before the last character, if that is an `s`. -/
def stripSuffix (chars : List Char) : Option (List Char) :=
  match chars.getLast? with
  | some 's' => some chars.dropLast
  | _ => none

/-- The whole part and the fraction around the first point; a point needs a fraction. -/
def splitPoint (body : List Char) : Option (List Char × List Char) :=
  let whole := body.takeWhile (· != '.')
  match body.dropWhile (· != '.') with
  | [] => some (whole, [])
  | [_] => none
  | _ :: fraction => some (whole, fraction)

/-- The span that a text denotes. -/
def ofText (text : String) : Except TimeError Duration :=
  match stripSuffix text.toList with
  | none => .error (.notDuration text)
  | some body =>
      let negative := body.head? = some '-'
      let body := if negative then body.tail else body
      match splitPoint body with
      | none => .error (.notDuration text)
      | some (whole, fraction) =>
          if (whole.isEmpty && fraction.isEmpty) || !whole.all Char.isDigit
              || !fraction.all Char.isDigit then .error (.notDuration text)
          else if 9 < fraction.length then .error (.tooManyDigits text)
          else
            let seconds : Int := Text.decimalValue whole
            let nanos : Int := nanosOfDigits fraction
            if Int64.maxValue.toInt < seconds then .error (.notDuration text)
            else if maxDurationSeconds < seconds then .error (.textOutOfRange text)
            else if negative then .ok ⟨Int64.ofInt (-seconds), Int32.ofInt (-nanos)⟩
            else .ok ⟨Int64.ofInt seconds, Int32.ofInt nanos⟩

end Duration

end Protobuf.Time
