import Protobuf.Number.Format
import Protobuf.Text.Digits

/-! Decimal numbers: a coefficient and a power of ten.  A binary number is written with the fewest
digits that lead back to it, and a decimal is read as the nearest binary number.
-/

namespace Protobuf.Number

/-- The number `coefficient * 10 ^ exponent` with a sign. -/
structure Decimal where
  negative : Bool
  coefficient : Nat
  exponent : Int
deriving DecidableEq, Repr

namespace Decimal

/-- The digits of the coefficient. -/
def digits (d : Decimal) : List Char :=
  Nat.toDigits 10 d.coefficient

/-- The power of ten of the first digit. -/
def leadingExponent (d : Decimal) : Int :=
  d.exponent + d.digits.length - 1

/-- A minus sign for negative numbers. -/
def sign (d : Decimal) : List Char :=
  if d.negative then ['-'] else []

/-- The digits with the point after the first `places`, padded with zeros up to the point. -/
def pointAfter (places : Nat) (digits : List Char) : List Char :=
  if places < digits.length then digits.take places ++ '.' :: digits.drop places
  else digits ++ List.replicate (places - digits.length) '0'

/-- Positional notation, whatever the size. -/
def positional (d : Decimal) : List Char :=
  let lead := d.leadingExponent
  if lead < 0 then
    d.sign ++ ['0', '.'] ++ List.replicate ((-lead).toNat - 1) '0' ++ d.digits
  else d.sign ++ pointAfter (lead.toNat + 1) d.digits

/-- The digits with a point behind the first, if there are others. -/
def mantissa (d : Decimal) : List Char :=
  match d.digits with
  | [] => []
  | [first] => [first]
  | first :: rest => first :: '.' :: rest

/-- Scientific notation: one digit before the point and the power of ten behind the digits. -/
def scientific (d : Decimal) : List Char :=
  d.sign ++ d.mantissa ++ 'e' :: (toString d.leadingExponent).toList

/-- Scientific notation in which the power has a sign in any case. -/
def exponential (d : Decimal) : List Char :=
  let lead := d.leadingExponent
  d.sign ++ d.mantissa ++ 'e' :: (if lead < 0 then '-' else '+')
    :: (toString lead.natAbs).toList

/-- The notation of JSON documents: positional for leading powers between the minus sixth and the
twentieth.
-/
def jsonNotation (d : Decimal) : List Char :=
  if -7 < d.leadingExponent ∧ d.leadingExponent < 21 then d.positional else d.exponential

/-- The magnitude in a binary format that is nearest to the decimal.  Powers that are out of every
format's range are decided by the number of digits.
-/
def toMagnitude (f : Format) (d : Decimal) : Nat :=
  if d.coefficient = 0 then 0
  else if 400 < d.leadingExponent then f.infinity
  else if d.leadingExponent < -400 then 0
  else f.ofRatio (d.coefficient * 10 ^ d.exponent.toNat) (10 ^ (-d.exponent).toNat)

/-- The bits of the nearest number in a binary format. -/
def toBits (f : Format) (d : Decimal) : Nat :=
  (if d.negative then f.signBit else 0) + d.toMagnitude f

end Decimal

/-- The positive numbers that round to a given one, and that number, as fractions of one positive
denominator; the ends are inside exactly if `closed` holds.
-/
structure RoundingInterval where
  low : Nat
  middle : Nat
  high : Nat
  denominator : Nat
  closed : Bool
deriving Repr

namespace RoundingInterval

/-- The interval around a finite magnitude.  Below a power of two numbers lie twice as dense. -/
def ofMagnitude (f : Format) (mantissa : Nat) (exponent : Int) : RoundingInterval :=
  let dense := mantissa = 2 ^ f.fractionBits ∧ f.minExponent < exponent
  let scale := 2 ^ (exponent - 2).toNat
  { low := (4 * mantissa - (if dense then 1 else 2)) * scale
    middle := 4 * mantissa * scale
    high := (4 * mantissa + 2) * scale
    denominator := 2 ^ (2 - exponent).toNat
    closed := mantissa % 2 = 0 }

/-- The multiple of `10 ^ power` in the interval that is nearest to the middle, the upper one of
two that are equally near.
-/
def nearestMultiple? (i : RoundingInterval) (power : Int) : Option Nat :=
  let up := 10 ^ (-power).toNat
  let unit := i.denominator * 10 ^ power.toNat
  let below := i.middle * up / unit
  let belowFits := if i.closed then i.low * up ≤ below * unit else i.low * up < below * unit
  let aboveFits :=
    if i.closed then (below + 1) * unit ≤ i.high * up else (below + 1) * unit < i.high * up
  if belowFits ∧ (i.middle * up % unit = 0 ∨ ¬ aboveFits) then some below
  else if belowFits ∧ aboveFits then
    if unit ≤ 2 * (i.middle * up % unit) then some (below + 1) else some below
  else if aboveFits then some (below + 1)
  else none

/-- The first multiple found on grids from `10 ^ power` downwards. -/
def search (i : RoundingInterval) : Nat → Int → Nat × Int
  | 0, power => (i.middle, power)
  | steps + 1, power =>
      match i.nearestMultiple? power with
      | some multiple => (multiple, power)
      | none => search i steps (power - 1)

/-- A power of ten above the whole interval. -/
def startPower (i : RoundingInterval) : Int :=
  ((i.high.log2 + 1 : Int) - i.denominator.log2) * 30103 / 100000 + 1

end RoundingInterval

/-- The decimal with the fewest digits that rounds to a finite number, and the nearest to it of
those.
-/
def shortest (f : Format) (negative : Bool) (mantissa : Nat) (exponent : Int) : Decimal :=
  if mantissa = 0 then ⟨negative, 0, 0⟩
  else
    let interval := RoundingInterval.ofMagnitude f mantissa exponent
    let (multiple, power) := interval.search 400 interval.startPower
    ⟨negative, multiple, power⟩

end Protobuf.Number
