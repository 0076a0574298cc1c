/-! Decimal digits: numbers padded to a width, and the number that a run of digits spells.
-/

namespace Protobuf.Text

/-- The digit of a number below ten. -/
def digitChar (n : Nat) : Char :=
  Char.ofNat (48 + n % 10)

/-- The `width` lowest decimal digits of a number. -/
def paddedDigits : Nat → Nat → List Char
  | 0, _ => []
  | width + 1, n => paddedDigits width (n / 10) ++ [digitChar n]

/-- The number that decimal digits spell. -/
def decimalValue (digits : List Char) : Nat :=
  digits.foldl (fun n c => 10 * n + (c.toNat - 48)) 0

/-- Takes exactly `width` digits and returns their number with the text behind them. -/
def takeDigits (width : Nat) (text : List Char) : Option (Nat × List Char) :=
  let digits := text.take width
  if digits.length = width ∧ digits.all Char.isDigit then
    some (decimalValue digits, text.drop width)
  else none

/-- The text behind an expected character. -/
def expectChar (c : Char) : List Char → Option (List Char)
  | [] => none
  | d :: rest => if d = c then some rest else none

/-- The integer that an optional sign and digits spell; a minus sign needs a signed type. -/
def integerText? (signed : Bool) (text : String) : Option Int :=
  let digitsValue? (digits : List Char) : Option Int :=
    if !digits.isEmpty && digits.all Char.isDigit then some (decimalValue digits) else none
  match text.toList with
  | '+' :: digits => digitsValue? digits
  | '-' :: digits => if signed then (digitsValue? digits).map fun n => -n else none
  | digits => digitsValue? digits

end Protobuf.Text
