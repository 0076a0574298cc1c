import Protobuf.Text.Identifier

/-! Literals at the front of a text: strings, characters and numbers.  Each function gives what is
behind the literal, or nothing if the text does not begin with one.
-/

namespace Protobuf.Declaration.Literal

open Text

/-- An identifier and what is behind it. -/
def identifier? (text : List Char) : Option (List Char × List Char) :=
  match text with
  | [] => none
  | c :: rest =>
      if beginsIdentifier c then
        some (c :: rest.takeWhile continuesIdentifier, rest.dropWhile continuesIdentifier)
      else none

/-- What is behind the identifier that may follow a literal as its suffix. -/
def dropSuffix (text : List Char) : List Char :=
  match identifier? text with
  | some (_, rest) => rest
  | none => text

/-! ## Strings -/

/-- What a string literal stands for. -/
inductive StringKind where
  | text
  | bytes
  /-- Text that ends with a zero byte, which it does not contain. -/
  | terminated
deriving DecidableEq, Repr

/-- The character may stand in a string as it is. -/
def StringKind.allows (kind : StringKind) (c : Char) : Bool :=
  match kind with
  | .text => true
  | .bytes => c.toNat < 128
  | .terminated => c != '\x00'

/-- The value of a hexadecimal digit. -/
def hexValue? (c : Char) : Option Nat :=
  if c.isDigit then some (c.toNat - '0'.toNat)
  else if 'a' ≤ c ∧ c ≤ 'f' then some (c.toNat - 'a'.toNat + 10)
  else if 'A' ≤ c ∧ c ≤ 'F' then some (c.toNat - 'A'.toNat + 10)
  else none

/-- Two hexadecimal digits may stand behind `\x`. -/
def StringKind.allowsHex (kind : StringKind) (high low : Char) : Bool :=
  match hexValue? high, hexValue? low with
  | some high, some low =>
      match kind with
      | .text => high < 8
      | .bytes => true
      | .terminated => high + low != 0
  | _, _ => false

/-- The code between the braces of an escape, behind `length` digits of value `value`. -/
def escapedCode? (value length : Nat) : List Char → Option (Nat × List Char)
  | [] => none
  | c :: rest =>
      match hexValue? c with
      | some digit =>
          if length = 6 then none else escapedCode? (16 * value + digit) (length + 1) rest
      | none =>
          if length = 0 then none
          else if c = '_' then escapedCode? value length rest
          else if c = '\x7d' ∧ value.isValidChar then some (value, rest)
          else none

/-- What is behind the blanks at the start of a line that goes on; a line feed has to follow a
carriage return.
-/
def continuedLine? (afterReturn : Bool) : List Char → Option (List Char)
  | [] => none
  | c :: rest =>
      if afterReturn then if c = '\n' then continuedLine? false rest else none
      else if c = ' ' ∨ c = '\t' ∨ c = '\n' then continuedLine? false rest
      else if c = '\r' then continuedLine? true rest
      else some (c :: rest)

/-- What is behind the escape of one character, its backslash excepted. -/
def escape? (kind : StringKind) (text : List Char) : Option (List Char) :=
  match text with
  | 'x' :: high :: low :: rest => if kind.allowsHex high low then some rest else none
  | 'u' :: '\x7b' :: rest =>
      if kind = .bytes then none
      else match escapedCode? 0 0 rest with
        | some (code, rest) => if kind = .terminated ∧ code = 0 then none else some rest
        | none => none
  | '0' :: rest => if kind = .terminated then none else some rest
  | c :: rest => if ['n', 'r', 't', '\\', '\'', '"'].contains c then some rest else none
  | [] => none

/-- What is behind an escape in a string, where a line may also go on in the next. -/
def stringEscape? (kind : StringKind) (text : List Char) : Option (List Char) :=
  match text with
  | '\n' :: rest => continuedLine? false rest
  | '\r' :: rest => continuedLine? true rest
  | text => escape? kind text

/-- What is behind the rest of a string in which escapes count. -/
def cooked? (kind : StringKind) (text : List Char) : Option (List Char) :=
  match text with
  | [] => none
  | '"' :: rest => some (dropSuffix rest)
  | '\r' :: '\n' :: rest => cooked? kind rest
  | '\r' :: _ => none
  | '\\' :: rest =>
      match stringEscape? kind rest with
      | some behind => if behind.length ≤ rest.length then cooked? kind behind else none
      | none => none
  | c :: rest => if kind.allows c then cooked? kind rest else none
termination_by text.length

/-- What is behind the rest of a string that ends with a quote and the given hashes. -/
def rawRest? (kind : StringKind) (hashes : List Char) : List Char → Option (List Char)
  | [] => none
  | '\r' :: '\n' :: rest => rawRest? kind hashes rest
  | '\r' :: _ => none
  | c :: rest =>
      if c = '"' ∧ hashes.isPrefixOf rest then some (dropSuffix (rest.drop hashes.length))
      else if kind.allows c then rawRest? kind hashes rest
      else none

/-- What is behind a raw string, from its hashes on. -/
def raw? (kind : StringKind) (text : List Char) : Option (List Char) :=
  let hashes := text.takeWhile (· == '#')
  match text.drop hashes.length with
  | '"' :: rest => if hashes.length ≤ 255 then rawRest? kind hashes rest else none
  | _ => none

/-- What is behind a string. -/
def string? (text : List Char) : Option (List Char) :=
  match text with
  | '"' :: rest => cooked? .text rest
  | 'r' :: rest => raw? .text rest
  | 'b' :: '"' :: rest => cooked? .bytes rest
  | 'b' :: 'r' :: rest => raw? .bytes rest
  | 'c' :: '"' :: rest => cooked? .terminated rest
  | 'c' :: 'r' :: rest => raw? .terminated rest
  | _ => none

/-- What is behind the quote that closes a character. -/
def closedCharacter? (text : List Char) : Option (List Char) :=
  match text with
  | '\'' :: rest => some (dropSuffix rest)
  | _ => none

/-- What is behind a character or a byte, from its opening quote on. -/
def quoted? (kind : StringKind) (text : List Char) : Option (List Char) :=
  match text with
  | '\'' :: '\\' :: rest => (escape? kind rest).bind closedCharacter?
  | '\'' :: c :: rest => if kind.allows c then closedCharacter? rest else none
  | _ => none

/-- What is behind a character or a byte. -/
def character? (text : List Char) : Option (List Char) :=
  match text with
  | 'b' :: rest => quoted? .bytes rest
  | text => quoted? .text text

/-! ## Numbers -/

/-- A digit, or the underscore that may stand between digits. -/
def isDigitOrGap (c : Char) : Bool :=
  c.isDigit || c == '_'

/-- The text begins with a character that begins an identifier. -/
def identifierAhead (text : List Char) : Bool :=
  text.head?.any beginsIdentifier

/-- What is behind a number once its suffix is dropped; no identifier may go on there. -/
def closedNumber? (text : List Char) : Option (List Char) :=
  let rest := dropSuffix text
  if rest.head?.any continuesIdentifier then none else some rest

/-- What is behind an exponent of which a sign or a digit may have been read; without digits it is
no exponent, and `instead` is given.
-/
def exponent? (instead : Option (List Char)) (signed valued : Bool)
    : List Char → Option (List Char)
  | [] => if valued then some [] else instead
  | c :: rest =>
      if (c = '+' ∨ c = '-') ∧ !valued then
        if signed then instead else exponent? instead true valued rest
      else if c.isDigit then exponent? instead signed true rest
      else if c = '_' then exponent? instead signed valued rest
      else if valued then some (c :: rest) else instead

/-- What is behind the digits of a number with a point or an exponent. -/
def floatDigits? (text : List Char) : Option (List Char) :=
  match text.dropWhile isDigitOrGap with
  | '.' :: rest =>
      if rest.head? = some '.' ∨ identifierAhead rest then none
      else
        let behind := rest.dropWhile isDigitOrGap
        match behind with
        | 'e' :: exponent => exponent? (some behind) false false exponent
        | 'E' :: exponent => exponent? (some behind) false false exponent
        | behind => some behind
  | 'e' :: exponent => exponent? none false false exponent
  | 'E' :: exponent => exponent? none false false exponent
  | _ => none

/-- What is behind the digits of a whole number in a base; `found` says that one has been read. -/
def wholeDigits? (base : Nat) (found : Bool) : List Char → Option (List Char)
  | [] => if found then some [] else none
  | c :: rest =>
      if c = '_' then if !found ∧ base = 10 then none else wholeDigits? base found rest
      else match hexValue? c with
        | some digit =>
            if digit < base then wholeDigits? base true rest
            else if c.isDigit then none
            else if found then some (c :: rest) else none
        | none => if found then some (c :: rest) else none

/-- What is behind a number. -/
def number? (text : List Char) : Option (List Char) :=
  let float := if text.head?.any Char.isDigit then (floatDigits? text).bind closedNumber? else none
  match float with
  | some rest => some rest
  | none =>
      (match text with
        | '0' :: 'x' :: rest => wholeDigits? 16 false rest
        | '0' :: 'o' :: rest => wholeDigits? 8 false rest
        | '0' :: 'b' :: rest => wholeDigits? 2 false rest
        | text => wholeDigits? 10 false text).bind closedNumber?

/-- What is behind a literal. -/
def behind? (text : List Char) : Option (List Char) :=
  string? text <|> character? text <|> number? text

end Protobuf.Declaration.Literal
