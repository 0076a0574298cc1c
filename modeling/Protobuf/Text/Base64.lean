/-! Base64.  Bytes are written in the standard alphabet with padding; text is read in the standard
or the URL-safe alphabet, with any padding at its end.
-/

namespace Protobuf.Text

/-- The digits of base 64 in the standard alphabet. -/
def base64Alphabet : List Char :=
  "ABCDEFGHIJKLMNOPQRSTUVWXYZabcdefghijklmnopqrstuvwxyz0123456789+/".toList

/-- The digit of a number below 64. -/
def base64Char (n : Nat) : Char :=
  base64Alphabet.getD n '='

/-- The number of a digit. -/
def base64Value? (c : Char) : Option Nat :=
  base64Alphabet.findIdx? (· == c)

/-- The digits of bytes without padding. -/
def base64Digits : List UInt8 → List Nat
  | [] => []
  | [a] => [a.toNat / 4, a.toNat % 4 * 16]
  | [a, b] => [a.toNat / 4, a.toNat % 4 * 16 + b.toNat / 16, b.toNat % 16 * 4]
  | a :: b :: c :: rest =>
      a.toNat / 4 :: (a.toNat % 4 * 16 + b.toNat / 16) :: (b.toNat % 16 * 4 + c.toNat / 64)
        :: c.toNat % 64 :: base64Digits rest

/-- The padding behind the digits of so many bytes. -/
def base64Padding (length : Nat) : List Char :=
  match length % 3 with
  | 1 => ['=', '=']
  | 2 => ['=']
  | _ => []

/-- The padded text of bytes. -/
def base64 (bytes : List UInt8) : String :=
  String.ofList ((base64Digits bytes).map base64Char ++ base64Padding bytes.length)

/-- The bytes that digits spell.  A lone digit at the end and unused bits that are set are
refused.
-/
def ofBase64Digits? : List Nat → Option (List UInt8)
  | [] => some []
  | [_] => none
  | [a, b] => if b % 16 = 0 then some [UInt8.ofNat (a * 4 + b / 16)] else none
  | [a, b, c] =>
      if c % 4 = 0 then some [UInt8.ofNat (a * 4 + b / 16), UInt8.ofNat (b % 16 * 16 + c / 4)]
      else none
  | a :: b :: c :: d :: rest =>
      match ofBase64Digits? rest with
      | none => none
      | some bytes =>
          some (UInt8.ofNat (a * 4 + b / 16) :: UInt8.ofNat (b % 16 * 16 + c / 4)
            :: UInt8.ofNat (c % 4 * 64 + d) :: bytes)

/-- A character of the URL-safe alphabet in the standard one. -/
def standardBase64Char (c : Char) : Char :=
  if c = '-' then '+' else if c = '_' then '/' else c

/-- The characters without the padding at their end. -/
def dropPadding (chars : List Char) : List Char :=
  (chars.reverse.dropWhile (· == '=')).reverse

/-- The bytes that a text spells. -/
def ofBase64? (text : String) : Option (List UInt8) :=
  match (dropPadding text.toList).mapM fun c => base64Value? (standardBase64Char c) with
  | none => none
  | some digits => ofBase64Digits? digits

end Protobuf.Text
