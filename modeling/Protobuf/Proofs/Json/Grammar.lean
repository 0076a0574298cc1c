import Protobuf.Json.Number

/-! The grammar of JSON texts, over characters, and the trees that texts denote.  A tree keeps the
members of an object in their order and with repeated keys, and a number as it is spelled; blanks
and the choice of escapes are lost.
-/

namespace Protobuf.Json

-----------------------------------------------------------------------------------------
-- Numbers
-----------------------------------------------------------------------------------------

/-- At least one digit. -/
def IsDigits (text : List Char) : Prop :=
  text ≠ [] ∧ ∀ c ∈ text, c.isDigit

/-- A zero, or digits that do not begin with one. -/
def IsWhole (text : List Char) : Prop :=
  text = ['0'] ∨ IsDigits text ∧ text.head? ≠ some '0'

/-- Nothing, or a point and digits. -/
def IsFraction (text : List Char) : Prop :=
  text = [] ∨ ∃ digits, text = '.' :: digits ∧ IsDigits digits

/-- Nothing, or an exponent mark and digits, perhaps with a sign between them. -/
def IsExponent (text : List Char) : Prop :=
  text = [] ∨ ∃ mark sign digits, text = mark :: (sign ++ digits) ∧ mark ∈ ['e', 'E']
    ∧ sign ∈ [[], ['+'], ['-']] ∧ IsDigits digits

/-- A number: a minus sign or none, a whole part, a fraction and an exponent. -/
def IsNumeral (text : List Char) : Prop :=
  ∃ sign whole fraction exponent, text = sign ++ whole ++ fraction ++ exponent
    ∧ sign ∈ [[], ['-']] ∧ IsWhole whole ∧ IsFraction fraction ∧ IsExponent exponent

/-- A number as it is spelled. -/
@[ext]
structure Numeral where
  text : List Char
  legal : IsNumeral text

-----------------------------------------------------------------------------------------
-- Strings
-----------------------------------------------------------------------------------------

/-- The value of a hexadecimal digit. -/
def hexDigitValue? (c : Char) : Option Nat :=
  if '0' ≤ c ∧ c ≤ '9' then some (c.toNat - 48)
  else if 'a' ≤ c ∧ c ≤ 'f' then some (c.toNat - 87)
  else if 'A' ≤ c ∧ c ≤ 'F' then some (c.toNat - 55)
  else none

/-- The number that four hexadecimal digits spell. -/
def codeUnit? : List Char → Option Nat
  | [a, b, c, d] => do
      let a ← hexDigitValue? a
      let b ← hexDigitValue? b
      let c ← hexDigitValue? c
      let d ← hexDigitValue? d
      return ((a * 16 + b) * 16 + c) * 16 + d
  | _ => none

/-- The characters that a letter behind a backslash stands for. -/
def shortEscapes : List (Char × Char) :=
  [('"', '"'), ('\\', '\\'), ('/', '/'), ('b', '\x08'), ('f', '\x0c'), ('n', '\n'), ('r', '\r'),
    ('t', '\t')]

/-- What stands between the quotes of a string literal, for the text that it denotes. -/
inductive Quoted : List Char → List Char → Prop
  | nil : Quoted [] []
  /-- Quotes, backslashes and control characters do not stand for themselves. -/
  | plain {c : Char} {text body : List Char} (printable : 0x20 ≤ c.toNat) (quote : c ≠ '"')
    (backslash : c ≠ '\\') (behind : Quoted text body)
    : Quoted (c :: text) (c :: body)
  | short {letter c : Char} {text body : List Char} (escape : (letter, c) ∈ shortEscapes)
    (behind : Quoted text body)
    : Quoted (c :: text) ('\\' :: letter :: body)
  | unit {c : Char} {digits text body : List Char} (code : codeUnit? digits = some c.toNat)
    (behind : Quoted text body)
    : Quoted (c :: text) ('\\' :: 'u' :: (digits ++ body))
  /-- A character beyond the code units is spelled as two surrogates. -/
  | pair {c : Char} {first second text body : List Char} {high low : Nat}
    (left : codeUnit? first = some (0xd800 + high)) (leftHalf : high < 0x400)
    (right : codeUnit? second = some (0xdc00 + low)) (rightHalf : low < 0x400)
    (code : c.toNat = 0x10000 + high * 0x400 + low) (behind : Quoted text body)
    : Quoted (c :: text) ('\\' :: 'u' :: (first ++ '\\' :: 'u' :: (second ++ body)))

/-- A string literal with its quotes. -/
def IsLiteral (text : String) (spelling : List Char) : Prop :=
  ∃ body, Quoted text.toList body ∧ spelling = '"' :: (body ++ ['"'])

-----------------------------------------------------------------------------------------
-- Values
-----------------------------------------------------------------------------------------

mutual

/-- A JSON value. -/
inductive Node where
  | null
  | bool (v : Bool)
  | number (v : Numeral)
  | string (v : String)
  | array (items : List Node)
  | object (fields : List Field)

/-- A member of an object. -/
structure Field where
  key : String
  value : Node

end

/-- The members of an object. -/
def Node.fields? : Node → Option (List Field)
  | .object fields => some fields
  | _ => none

/-- Spaces, tabs, line feeds and carriage returns. -/
def IsBlank (text : List Char) : Prop :=
  ∀ c ∈ text, c ∈ [' ', '\t', '\n', '\r']

/-- Blanks around what is spelled. -/
def Padded (spells : List Char → Prop) (text : List Char) : Prop :=
  ∃ before inner behind, text = before ++ inner ++ behind ∧ IsBlank before ∧ spells inner
    ∧ IsBlank behind

mutual

/-- The text spells the value, and nothing stands before or behind it. -/
def Node.Spells : Node → List Char → Prop
  | .null, text => text = "null".toList
  | .bool true, text => text = "true".toList
  | .bool false, text => text = "false".toList
  | .number v, text => text = v.text
  | .string v, text => IsLiteral v text
  | .array items, text => ∃ inner, text = '[' :: (inner ++ [']']) ∧ itemsSpell false items inner
  | .object fields, text =>
      ∃ inner, text = '\x7b' :: (inner ++ ['\x7d']) ∧ fieldsSpell false fields inner

/-- What stands in the brackets of an array, or a part of it behind other items. -/
def itemsSpell : Bool → List Node → List Char → Prop
  | behind, [], text => if behind then text = [] else IsBlank text
  | behind, n :: items, text =>
      ∃ item others, text = (if behind then [','] else []) ++ item ++ others
        ∧ Padded n.Spells item ∧ itemsSpell true items others

/-- What stands in the braces of an object, or a part of it behind other members. -/
def fieldsSpell : Bool → List Field → List Char → Prop
  | behind, [], text => if behind then text = [] else IsBlank text
  | behind, ⟨key, n⟩ :: fields, text =>
      ∃ name value others, text = (if behind then [','] else []) ++ name ++ ':' :: value ++ others
        ∧ Padded (IsLiteral key) name ∧ Padded n.Spells value ∧ fieldsSpell true fields others

end

mutual

/-- How deep arrays and objects nest in the value. -/
def Node.nesting : Node → Nat
  | .null | .bool _ | .number _ | .string _ => 0
  | .array items => itemsNesting items + 1
  | .object fields => fieldsNesting fields + 1

def itemsNesting : List Node → Nat
  | [] => 0
  | n :: items => max n.nesting (itemsNesting items)

def fieldsNesting : List Field → Nat
  | [] => 0
  | ⟨_, n⟩ :: fields => max n.nesting (fieldsNesting fields)

end

end Protobuf.Json
