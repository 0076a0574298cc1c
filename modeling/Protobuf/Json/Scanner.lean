import Protobuf.Json.Error
import Protobuf.Json.Number
import Protobuf.Text.Utf8

/-! The tokens of a JSON document, scanned from the front of its bytes, and the passage over whole
values.  A failed scan leaves the bytes at which the fault is reported.
-/

namespace Protobuf.Json

/-- A computation that consumes bytes of a document from the front. -/
abbrev Scanner := EStateM SyntaxFault (List UInt8)

/-- How deep objects and arrays may nest. -/
def maxDepth : Nat := 128

/-- A space, tab, line feed or carriage return. -/
def isBlank (b : UInt8) : Bool :=
  b == 32 || b == 9 || b == 10 || b == 13

/-- The document behind leading blanks. -/
def dropBlanks (bytes : List UInt8) : List UInt8 :=
  bytes.dropWhile isBlank

/-- A character that occurs in number tokens. -/
def isNumberByte (b : UInt8) : Bool :=
  (48 ≤ b && b ≤ 57) || b == 45 || b == 43 || b == 46 || b == 101 || b == 69

/-- ASCII bytes as characters. -/
def asciiChars (bytes : List UInt8) : List Char :=
  bytes.map fun b => Char.ofNat b.toNat

/-- The value of a hexadecimal digit. -/
def hexValue? (b : UInt8) : Option Nat :=
  if 48 ≤ b && b ≤ 57 then some (b.toNat - 48)
  else if 97 ≤ b && b ≤ 102 then some (b.toNat - 87)
  else if 65 ≤ b && b ≤ 70 then some (b.toNat - 55)
  else none

/-- The value of hexadecimal digits. -/
def hexValues? (digits : List UInt8) : Option Nat :=
  (digits.mapM hexValue?).map fun values => values.foldl (fun n v => 16 * n + v) 0

/-- The value of the next four bytes as hexadecimal digits; a plus sign may stand for the first. -/
def hex4? (bytes : List UInt8) : Option (Nat × List UInt8) :=
  let digits := bytes.take 4
  let value := match digits with
    | 43 :: rest => hexValues? rest
    | digits => hexValues? digits
  if digits.length = 4 then value.map fun n => (n, bytes.drop 4) else none

/-- The character that a code stands for, unless the code is a surrogate or too large. -/
def charOfCode? (code : Nat) : Option Char :=
  if code.isValidChar then some (Char.ofNat code) else none

namespace Scanner

/-- Consumes leading blanks. -/
def blanks : Scanner Unit := fun bytes =>
  .ok () (dropBlanks bytes)

/-- The next byte behind blanks, which stays. -/
def peek : Scanner (Option UInt8) := fun bytes =>
  .ok (dropBlanks bytes).head? (dropBlanks bytes)

/-- Consumes one byte. -/
def advance : Scanner Unit := fun bytes =>
  .ok () bytes.tail

/-- Consumes an expected byte behind blanks. -/
def expect (b : UInt8) (fault : SyntaxFault) : Scanner Unit := do
  if (← peek) == some b then advance else throw fault

/-- Consumes a word such as `null`. -/
def literal (word : String) : Scanner Unit := fun bytes =>
  let word := Text.utf8 word
  if word.isPrefixOf bytes then .ok () (bytes.drop word.length) else .error .invalidLiteral bytes

/-- A number: the longest run of characters that occur in numbers has to be one. -/
def number : Scanner String := fun bytes =>
  let text := asciiChars (bytes.takeWhile isNumberByte)
  if isNumber text then .ok (String.ofList text) (bytes.dropWhile isNumberByte)
  else .error .invalidNumber bytes

/-- The low half of a surrogate pair. -/
def lowSurrogate : Scanner Nat := fun bytes =>
  match bytes with
  | 92 :: 117 :: rest =>
      match hex4? rest with
      | some (low, rest') =>
          if 0xdc00 ≤ low ∧ low < 0xe000 then .ok low rest' else .error .invalidSurrogatePair rest'
      | none => .error .invalidSurrogatePair rest
  | bytes => .error .invalidSurrogatePair bytes

/-- The character behind a backslash and a `u`. -/
def unicodeEscape : Scanner Char := fun bytes =>
  match hex4? bytes with
  | none => .error .invalidUnicodeEscape bytes
  | some (high, rest) =>
      if 0xd800 ≤ high ∧ high < 0xdc00 then
        match lowSurrogate rest with
        | .error e rest => .error e rest
        | .ok low rest =>
            .ok (Char.ofNat (0x10000 + (high - 0xd800) * 1024 + (low - 0xdc00))) rest
      else match charOfCode? high with
        | some c => .ok c rest
        | none => .error .invalidUnicodeEscape rest

/-- The bytes that an escape stands for, scanned behind its backslash. -/
def escape : Scanner (List UInt8) := fun bytes =>
  match bytes with
  | [] => .error .unterminatedString []
  | b :: rest =>
      if b = 34 ∨ b = 92 ∨ b = 47 then .ok [b] rest
      else if b = 98 then .ok [8] rest
      else if b = 102 then .ok [12] rest
      else if b = 110 then .ok [10] rest
      else if b = 114 then .ok [13] rest
      else if b = 116 then .ok [9] rest
      else if b = 117 then
        match unicodeEscape rest with
        | .ok c rest => .ok (Text.utf8 (String.singleton c)) rest
        | .error e rest => .error e rest
      else .error .invalidEscape rest

/-- The bytes of a string up to its closing quote, behind those that were already scanned, which
are given last first.
-/
def stringBytes (scanned : List UInt8) (bytes : List UInt8)
    : EStateM.Result SyntaxFault (List UInt8) (List UInt8) :=
  match bytes with
  | [] => .error .unterminatedString []
  | b :: rest =>
      if b = 34 then .ok scanned.reverse rest
      else if b = 92 then
        match escape rest with
        | .error e rest => .error e rest
        | .ok decoded behind =>
            if behind.length ≤ rest.length then stringBytes (decoded.reverse ++ scanned) behind
            else .error .unterminatedString behind
      else if b < 32 then .error .controlCharacter rest
      else stringBytes (b :: scanned) rest
termination_by bytes.length

/-- A string that begins with the quote at the front. -/
def string : Scanner String := fun bytes =>
  match stringBytes [] bytes.tail with
  | .error e rest => .error e rest
  | .ok decoded rest =>
      match Text.ofUtf8? decoded with
      | some text => .ok text rest
      | none => .error .invalidUtf8 rest

/-- Passes over the members of an object behind its opening brace, given how to pass over a
value.
-/
def skipMembers (value : Scanner Unit) (bytes : List UInt8)
    : EStateM.Result SyntaxFault (List UInt8) Unit :=
  let member : Scanner (Option UInt8) := do
    if (← peek) == some 34 then
      let _ ← string
      expect 58 .expectedColon
      value
      peek
    else throw .expectedKey
  match member bytes with
  | .error e rest => .error e rest
  | .ok (some 44) rest =>
      if rest.length < bytes.length then skipMembers value rest.tail
      else .error .expectedCommaOrBrace rest
  | .ok (some 125) rest => .ok () rest.tail
  | .ok _ rest => .error .expectedCommaOrBrace rest
termination_by bytes.length
decreasing_by
  rw [List.length_tail]
  omega

/-- Passes over the elements of an array behind its opening bracket, given how to pass over a
value.
-/
def skipElements (value : Scanner Unit) (bytes : List UInt8)
    : EStateM.Result SyntaxFault (List UInt8) Unit :=
  let element : Scanner (Option UInt8) := do
    value
    peek
  match element bytes with
  | .error e rest => .error e rest
  | .ok (some 44) rest =>
      if rest.length < bytes.length then skipElements value rest.tail
      else .error .expectedCommaOrBracket rest
  | .ok (some 93) rest => .ok () rest.tail
  | .ok _ rest => .error .expectedCommaOrBracket rest
termination_by bytes.length
decreasing_by
  rw [List.length_tail]
  omega

/-- Passes over one value that may nest so many levels. -/
def skipValue : Nat → Scanner Unit
  | 0 => throw .nestingTooDeep
  | depth + 1 => do
      match ← peek with
      | none => throw .unexpectedEnd
      | some b =>
          if b = 123 then
            advance
            if (← peek) == some 125 then advance else skipMembers (skipValue depth)
          else if b = 91 then
            advance
            if (← peek) == some 93 then advance else skipElements (skipValue depth)
          else if b = 34 then
            let _ ← string
          else if b = 116 then literal "true"
          else if b = 102 then literal "false"
          else if b = 110 then literal "null"
          else if b = 45 || (48 ≤ b && b ≤ 57) then
            let _ ← number
          else throw .unexpectedCharacter

end Scanner

end Protobuf.Json
