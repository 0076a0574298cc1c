import Protobuf.Number.Power

/-! Binary floating point numbers as bit patterns.  A pattern stands for a signed multiple of a
power of two, an infinity or no number; a ratio is rounded to the pattern whose value is nearest,
and to the even pattern of two that are equally near.
-/

namespace Protobuf.Number

/-- A binary interchange format: how many bits the fraction and the exponent take. -/
structure Format where
  fractionBits : Nat
  exponentBits : Nat
deriving DecidableEq, Repr

/-- The format of `float` fields. -/
def single : Format := ⟨23, 8⟩

/-- The format of `double` fields. -/
def double : Format := ⟨52, 11⟩

/-- What a bit pattern stands for. -/
inductive FloatValue where
  | notANumber
  | infinite (negative : Bool)
  /-- The number `mantissa * 2 ^ exponent` with a sign. -/
  | finite (negative : Bool) (mantissa : Nat) (exponent : Int)
deriving DecidableEq, Repr

namespace Format

/-- The pattern of positive infinity; patterns below it are the finite magnitudes in order. -/
def infinity (f : Format) : Nat :=
  (2 ^ f.exponentBits - 1) * 2 ^ f.fractionBits

/-- The pattern that computation gives when there is no number. -/
def quietNaN (f : Format) : Nat :=
  f.infinity + 2 ^ (f.fractionBits - 1)

/-- The weight of the sign bit. -/
def signBit (f : Format) : Nat :=
  2 ^ (f.fractionBits + f.exponentBits)

/-- The exponent of the least positive number. -/
def minExponent (f : Format) : Int :=
  2 - 2 ^ (f.exponentBits - 1) - f.fractionBits

/-- The mantissa and exponent of a finite magnitude. -/
def magnitude (f : Format) (pattern : Nat) : Nat × Int :=
  let biased := pattern / 2 ^ f.fractionBits
  let fraction := pattern % 2 ^ f.fractionBits
  if biased = 0 then (fraction, f.minExponent)
  else (2 ^ f.fractionBits + fraction, f.minExponent + biased - 1)

/-- What a bit pattern stands for. -/
def value (f : Format) (bits : Nat) : FloatValue :=
  let negative := bits / f.signBit % 2 = 1
  let pattern := bits % f.signBit
  if pattern < f.infinity then
    let (mantissa, exponent) := f.magnitude pattern
    .finite negative mantissa exponent
  else if pattern = f.infinity then .infinite negative
  else .notANumber

/-- The quotient to the nearest integer, a tie to the even one. -/
def divideToEven (numerator denominator : Nat) : Nat :=
  let quotient := numerator / denominator
  let twice := 2 * (numerator % denominator)
  if twice < denominator then quotient
  else if denominator < twice then quotient + 1
  else if quotient % 2 = 0 then quotient
  else quotient + 1

/-- The pattern of the mantissa at an exponent that leaves it at most one bit too long. -/
def assemble (f : Format) (mantissa : Nat) (exponent : Int) : Nat :=
  let biased := (exponent - f.minExponent).toNat
  Nat.min f.infinity (biased * 2 ^ f.fractionBits + mantissa)

/-- The magnitude nearest to a ratio of positive numbers. -/
def ofRatio (f : Format) (numerator denominator : Nat) : Nat :=
  let scaled (exponent : Int) : Nat × Nat :=
    (numerator * 2 ^ (-exponent).toNat, denominator * 2 ^ exponent.toNat)
  let guess : Int := numerator.log2 - denominator.log2 - f.fractionBits
  let quotient := (scaled guess).1 / (scaled guess).2
  let exponent := if quotient < 2 ^ f.fractionBits then guess - 1 else guess
  let exponent := if exponent < f.minExponent then f.minExponent else exponent
  let (top, bottom) := scaled exponent
  f.assemble (divideToEven top bottom) exponent

end Format

end Protobuf.Number
