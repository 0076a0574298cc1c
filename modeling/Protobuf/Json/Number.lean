import Protobuf.Number.Decimal

/-! Number tokens of JSON documents: their grammar, the decimal they denote, and the text of floats
and integers.
-/

namespace Protobuf.Json

open Number

/-- Drops a run of at least one digit. -/
def dropDigits? (text : List Char) : Option (List Char) :=
  match text with
  | [] => none
  | c :: rest => if c.isDigit then some (rest.dropWhile Char.isDigit) else none

/-- Drops the whole part: a zero, or digits that do not begin with one. -/
def dropWhole? (text : List Char) : Option (List Char) :=
  match text with
  | '0' :: rest => some rest
  | text => dropDigits? text

/-- Drops a point with digits behind it, if there is a point. -/
def dropFraction? (text : List Char) : Option (List Char) :=
  match text with
  | '.' :: rest => dropDigits? rest
  | text => some text

/-- Drops a sign if there is one. -/
def dropSign (text : List Char) : List Char :=
  match text with
  | '+' :: rest => rest
  | '-' :: rest => rest
  | text => text

/-- Drops an exponent, if there is one. -/
def dropExponent? (text : List Char) : Option (List Char) :=
  match text with
  | 'e' :: rest => dropDigits? (dropSign rest)
  | 'E' :: rest => dropDigits? (dropSign rest)
  | text => some text

/-- Drops a minus sign if there is one. -/
def dropMinus (text : List Char) : List Char :=
  match text with
  | '-' :: rest => rest
  | text => text

/-- The text is a number of the JSON grammar. -/
def isNumber (text : List Char) : Bool :=
  match (dropWhole? (dropMinus text)).bind dropFraction? |>.bind dropExponent? with
  | some [] => true
  | _ => false

/-- The signed number behind an exponent mark, or zero. -/
def exponentValue (text : List Char) : Int :=
  match text with
  | [] => 0
  | _ :: '-' :: digits => -(Text.decimalValue digits : Int)
  | _ :: '+' :: digits => Text.decimalValue digits
  | _ :: digits => Text.decimalValue digits

/-- The decimal that a number text denotes. -/
def decimalOfNumber (text : List Char) : Decimal :=
  let body := dropMinus text
  let whole := body.takeWhile Char.isDigit
  let behind := body.dropWhile Char.isDigit
  let fraction := match behind with
    | '.' :: rest => rest.takeWhile Char.isDigit
    | _ => []
  let exponent := match behind with
    | '.' :: rest => rest.dropWhile Char.isDigit
    | rest => rest
  { negative := text.head? == some '-'
    coefficient := Text.decimalValue (whole ++ fraction)
    exponent := exponentValue exponent - fraction.length }

/-- The text of a float that is no finite number. -/
def specialText : FloatValue → Option String
  | .notANumber => some "NaN"
  | .infinite false => some "Infinity"
  | .infinite true => some "-Infinity"
  | .finite _ _ _ => none

/-- The 32-bit number that a numeral denotes. -/
def int32OfNumeral? (text : String) : Option Int32 :=
  match Text.integerText? true text with
  | some n => if -2 ^ 31 ≤ n ∧ n < 2 ^ 31 then some (Int32.ofInt n) else none
  | none => none

/-- The text in front of the first exponent mark and the text behind it. -/
def splitMark? : List Char → Option (List Char × List Char)
  | [] => none
  | c :: rest =>
      if c = 'e' then some ([], rest)
      else match splitMark? rest with
        | some (front, behind) => some (c :: front, behind)
        | none => none

/-- Rewrites a number from scientific notation to that of JSON documents: without an exponent for
powers between the minus sixth and the twentieth.  A text without a power of 32 bits is left alone.
Only without any digit to put in front of the exponent there is no result.
-/
def formatFloat (text : List Char) : Option (List Char) :=
  match splitMark? text with
  | none => some text
  | some (mantissa, power) =>
      match int32OfNumeral? (String.ofList power) with
      | none => some text
      | some power =>
          let power := power.toInt
          let sign := if mantissa.head? = some '-' then ['-'] else []
          let digits := (dropMinus mantissa).filter (· ≠ '.')
          if ¬(-7 < power ∧ power < 21) then
            match digits with
            | [] => none
            | first :: rest =>
                some (sign ++ first :: (if rest.isEmpty then [] else '.' :: rest)
                  ++ 'e' :: (if power < 0 then '-' else '+') :: (toString power.natAbs).toList)
          else if power < 0 then
            some (sign ++ ['0', '.'] ++ List.replicate (power.natAbs - 1) '0' ++ digits)
          else
            let point := power.toNat + 1
            if point < digits.length then
              some (sign ++ digits.take point ++ '.' :: digits.drop point)
            else some (sign ++ digits ++ List.replicate (point - digits.length) '0')

/-- The number text of a finite float, from its shortest digits in scientific notation. -/
def floatText (f : Format) (bits : Nat) : String :=
  match f.value bits with
  | .finite negative mantissa exponent =>
      String.ofList ((formatFloat (shortest f negative mantissa exponent).scientific).getD [])
  | _ => ""

/-- The text of a float in diagnostics: always positional. -/
def floatDisplay (f : Format) (bits : Nat) : String :=
  match f.value bits with
  | .notANumber => "NaN"
  | .infinite false => "inf"
  | .infinite true => "-inf"
  | .finite negative mantissa exponent =>
      String.ofList (shortest f negative mantissa exponent).positional

/-- The integer that a finite float is, if it is one. -/
def integerOfFloat? (negative : Bool) (mantissa : Nat) (exponent : Int) : Option Int :=
  let magnitude : Option Nat :=
    if 0 ≤ exponent then some (mantissa * 2 ^ exponent.toNat)
    else if mantissa % 2 ^ (-exponent).toNat = 0 then some (mantissa / 2 ^ (-exponent).toNat)
    else none
  magnitude.map fun n => if negative then -(n : Int) else n

end Protobuf.Json
