import Protobuf.Indexed
import Protobuf.Json.Scanner

/-! The tokens of a JSON document, scanned at an offset into its bytes, and the passage over whole
values.  A failed scan leaves the offset at which the fault is reported.
-/

namespace Protobuf.Json

/-- A scanner that reads by index. -/
abbrev IndexedScanner := Indexed SyntaxFault

namespace IndexedScanner

open Indexed

/-- A byte that is there stands in front of the end. -/
theorem lt_of_getElem? {data : List UInt8} {i : Nat} {b : UInt8} (h : data[i]? = some b)
    : i < data.length :=
  (List.getElem?_eq_some_iff.mp h).1

/-- The offset behind the longest run of bytes of a kind. -/
def runEnd (kind : UInt8 → Bool) (data : List UInt8) (i : Nat) : Nat :=
  match _h : data[i]? with
  | some b => if kind b then runEnd kind data (i + 1) else i
  | none => i
termination_by data.length - i
decreasing_by
  have inside := lt_of_getElem? _h
  omega

/-- Consumes leading blanks. -/
def blanks : IndexedScanner Unit := fun data i =>
  .ok () (runEnd isBlank data i)

/-- The next byte behind blanks, which stays. -/
def peek : IndexedScanner (Option UInt8) := do
  blanks
  byte?

/-- Moves over one byte. -/
def advance : IndexedScanner Unit := do
  moveTo ((← position) + 1)

/-- Consumes an expected byte behind blanks. -/
def expect (b : UInt8) (fault : SyntaxFault) : IndexedScanner Unit := do
  if (← peek) == some b then advance else fail fault

/-- Consumes a word such as `null`. -/
def literal (word : String) : IndexedScanner Unit := do
  let start ← position
  let word := Text.utf8 word
  if word.isPrefixOf (← sliceFrom start) then moveTo (start + word.length)
  else fail .invalidLiteral

/-- A number: the longest run of characters that occur in numbers has to be one. -/
def number : IndexedScanner String := fun data start =>
  let stop := runEnd isNumberByte data start
  match between? data start stop with
  | none => .error .outOfRange stop
  | some token =>
      let text := asciiChars token
      if isNumber text then .ok (String.ofList text) stop
      else .error (.failed .invalidNumber) start

/-- The value of the next four bytes as hexadecimal digits, if there are as many. -/
def hex4? : IndexedScanner (Option Nat) := fun data i =>
  match between? data i (i + 4) with
  | none => .ok none i
  | some digits =>
      match Json.hex4? digits with
      | none => .ok none i
      | some (n, _) => .ok (some n) (i + 4)

/-- The low half of a surrogate pair. -/
def lowSurrogate : IndexedScanner Nat := do
  let start ← position
  if [92, 117].isPrefixOf (← sliceFrom start) then
    moveTo (start + 2)
    match ← hex4? with
    | some low =>
        if 0xdc00 ≤ low ∧ low < 0xe000 then return low else fail .invalidSurrogatePair
    | none => fail .invalidSurrogatePair
  else fail .invalidSurrogatePair

/-- The character behind a backslash and a `u`. -/
def unicodeEscape : IndexedScanner Char := do
  match ← hex4? with
  | none => fail .invalidUnicodeEscape
  | some high =>
      if 0xd800 ≤ high ∧ high < 0xdc00 then
        let low ← lowSurrogate
        return Char.ofNat (0x10000 + (high - 0xd800) * 1024 + (low - 0xdc00))
      else match charOfCode? high with
        | some c => return c
        | none => fail .invalidUnicodeEscape

/-- The bytes that an escape stands for, scanned behind its backslash. -/
def escape : IndexedScanner (List UInt8) := do
  match ← byte? with
  | none => fail .unterminatedString
  | some b =>
      advance
      if b = 34 ∨ b = 92 ∨ b = 47 then return [b]
      else if b = 98 then return [8]
      else if b = 102 then return [12]
      else if b = 110 then return [10]
      else if b = 114 then return [13]
      else if b = 116 then return [9]
      else if b = 117 then return Text.utf8 (String.singleton (← unicodeEscape))
      else fail .invalidEscape

/-- The bytes of a string up to its closing quote, behind those that were already scanned, which
are given last first.
-/
def stringBytes (data : List UInt8) (scanned : List UInt8) (i : Nat)
    : EStateM.Result (Interruption SyntaxFault) Nat (List UInt8) :=
  match _h : data[i]? with
  | none => .error (.failed .unterminatedString) i
  | some b =>
      if b = 34 then .ok scanned.reverse (i + 1)
      else if b = 92 then
        match escape data (i + 1) with
        | .error why j => .error why j
        | .ok decoded j =>
            if i < j then stringBytes data (decoded.reverse ++ scanned) j
            else .error (.failed .unterminatedString) j
      else if b < 32 then .error (.failed .controlCharacter) (i + 1)
      else stringBytes data (b :: scanned) (i + 1)
termination_by data.length - i
decreasing_by
  all_goals
    have inside := lt_of_getElem? _h
    omega

/-- A string that begins with the quote at the offset. -/
def string : IndexedScanner String := fun data i =>
  match stringBytes data [] (i + 1) with
  | .error why j => .error why j
  | .ok decoded j =>
      match Text.ofUtf8? decoded with
      | some text => .ok text j
      | none => .error (.failed .invalidUtf8) j

/-- A key and the colon behind it. -/
def keyAndColon : IndexedScanner String := do
  if (← peek) == some 34 then
    let key ← string
    expect 58 .expectedColon
    return key
  else fail .expectedKey

/-- Passes over a key and its value, and looks at what comes next. -/
def member (value : IndexedScanner Unit) : IndexedScanner (Option UInt8) := do
  let _ ← keyAndColon
  value
  peek

/-- Passes over a value, and looks at what comes next. -/
def element (value : IndexedScanner Unit) : IndexedScanner (Option UInt8) := do
  value
  peek

/-- Passes over the parts of a container up to the byte that ends it, given how to pass over a part.
-/
def skipPartsFrom (part : IndexedScanner (Option UInt8)) (close : UInt8) (fault : SyntaxFault)
    (data : List UInt8) (i : Nat)
    : EStateM.Result (Interruption SyntaxFault) Nat Unit :=
  match part data i with
  | .error why j => .error why j
  | .ok next j =>
      if next = some 44 then
        if data.length - j < data.length - i then skipPartsFrom part close fault data (j + 1)
        else .error (.failed fault) j
      else if next = some close then .ok () (j + 1)
      else .error (.failed fault) j
termination_by data.length - i

/-- Passes over the parts of a container from the offset on. -/
def skipParts (part : IndexedScanner (Option UInt8)) (close : UInt8) (fault : SyntaxFault)
    : IndexedScanner Unit := fun data i =>
  skipPartsFrom part close fault data i

/-- Passes over a container behind its opening byte. -/
def enclosed (part : IndexedScanner (Option UInt8)) (close : UInt8) (fault : SyntaxFault)
    : IndexedScanner Unit := do
  if (← peek) == some close then advance else skipParts part close fault

/-- Passes over one value that may nest so many levels. -/
def skipValue : Nat → IndexedScanner Unit
  | 0 => fail .nestingTooDeep
  | depth + 1 => do
      match ← peek with
      | none => fail .unexpectedEnd
      | some b =>
          if b = 123 then
            advance
            enclosed (member (skipValue depth)) 125 .expectedCommaOrBrace
          else if b = 91 then
            advance
            enclosed (element (skipValue depth)) 93 .expectedCommaOrBracket
          else if b = 34 then
            let _ ← string
          else if b = 116 then literal "true"
          else if b = 102 then literal "false"
          else if b = 110 then literal "null"
          else if b = 45 || (48 ≤ b && b ≤ 57) then
            let _ ← number
          else fail .unexpectedCharacter

end IndexedScanner

end Protobuf.Json
