import Protobuf.Declaration.Error
import Protobuf.Number.Power

/-! Attributes of a declared field as they are written: a name and a list of items, each a word, a
value under a key, values under a key, or a bare literal.
-/

namespace Protobuf.Declaration

/-- A literal in an attribute. -/
inductive Literal where
  | string (text : String)
  | integer (n : Int)
  | boolean (b : Bool)
  /-- A number with a fraction, a character or bytes; among the values under a key also an item. -/
  | other
deriving DecidableEq, Repr

/-- One item in the list of an attribute. -/
inductive Item where
  /-- A word. -/
  | word (key : String)
  /-- A value under a key, `key = value`. -/
  | assign (key : String) (value : Literal)
  /-- Values under a key, `key(value, …)`. -/
  | call (key : String) (values : List Literal)
  /-- A literal without a key. -/
  | literal (value : Literal)
deriving DecidableEq, Repr

/-- An attribute; the forms without a list have no items. -/
structure Attribute where
  name : String
  items : List Item
deriving DecidableEq, Repr

/-- The items of all attributes with the given name, in order. -/
def itemsOf (name : String) (attributes : List Attribute) : List Item :=
  (attributes.filter fun a => a.name == name).flatMap (·.items)

/-- The 32-bit number that digits spell behind what was read before. -/
def numeralDigits (value : Nat) : List Char → Except NumeralFault Nat
  | [] => .ok value
  | c :: rest =>
      if !c.isDigit then .error .invalidDigit
      else
        let value := 10 * value + (c.toNat - 48)
        if value < 2 ^ 32 then numeralDigits value rest else .error .tooLarge

/-- The 32-bit number that a text spells; a plus sign may stand in front. -/
def numeral (text : List Char) : Except NumeralFault Nat :=
  match text with
  | [] => .error .empty
  | ['+'] => .error .invalidDigit
  | '+' :: digits => numeralDigits 0 digits
  | digits => numeralDigits 0 digits

/-- An integer as a 32-bit number. -/
def numeralOfInt (n : Int) : Except NumeralFault Nat :=
  if n < 0 then .error .invalidDigit
  else if 2 ^ 32 ≤ n then .error .tooLarge
  else .ok n.toNat

/-- A character of white space: the separators, tabs and line breaks of Unicode. -/
def isBlank (c : Char) : Bool :=
  let code := c.toNat
  (9 ≤ code && code ≤ 13) || (0x2000 ≤ code && code ≤ 0x200a)
    || [0x20, 0x85, 0xa0, 0x1680, 0x2028, 0x2029, 0x202f, 0x205f, 0x3000].contains code

/-- A text without blanks at its ends. -/
def trim (text : List Char) : List Char :=
  ((text.dropWhile isBlank).reverse.dropWhile isBlank).reverse

/-- A numeral fault as a declaration error. -/
def liftNumeral {α : Type} (result : Except NumeralFault α) : Except DeclarationError α :=
  match result with
  | .ok value => .ok value
  | .error fault => .error (.numeral fault)

/-- The field number of a `tag` item, none for another item. -/
def tagItem (item : Item) : Except DeclarationError (Option Nat) :=
  match item with
  | .word "tag" => .error (.invalidAttribute "tag")
  | .assign "tag" (.string text) => (liftNumeral (numeral text.toList)).map some
  | .assign "tag" (.integer n) => (liftNumeral (numeralOfInt n)).map some
  | .assign "tag" _ => .error (.invalidAttribute "tag")
  | .call "tag" [.integer n] => (liftNumeral (numeralOfInt n)).map some
  | .call "tag" _ => .error (.invalidAttribute "tag")
  | _ => .ok none

/-- One field number in the list of a `tags` item. -/
def tagLiteral (literal : Literal) : Except DeclarationError Nat :=
  match literal with
  | .integer n => liftNumeral (numeralOfInt n)
  | _ => .error (.invalidAttribute "tag")

/-- The field numbers of a `tags` item, none for another item. -/
def tagsItem (item : Item) : Except DeclarationError (Option (List Nat)) :=
  match item with
  | .assign "tags" (.string text) =>
      ((text.toList.splitOn ',').mapM fun part => liftNumeral (numeral (trim part))).map some
  | .call "tags" literals => (literals.mapM tagLiteral).map some
  | .word "tags" => .error (.invalidAttribute "tag")
  | .assign "tags" _ => .error (.invalidAttribute "tag")
  | _ => .ok none

/-- The key of an item. -/
def Item.key? : Item → Option String
  | .word key => some key
  | .assign key _ => some key
  | .call key _ => some key
  | .literal _ => none

/-- The text of an item under a key, none for an item with another key. -/
def textItem (key : String) (item : Item) : Except DeclarationError (Option String) :=
  if item.key? = some key then
    match item with
    | .assign _ (.string text) => .ok (some text)
    | _ => .error (.invalidAttribute key)
  else .ok none

/-- The truth value of an item under a key, none for an item with another key. -/
def boolItem (key : String) (item : Item) : Except DeclarationError (Option Bool) :=
  if item.key? = some key then
    match item with
    | .word _ => .ok (some true)
    | .assign _ (.boolean b) => .ok (some b)
    | .assign _ (.string "true") => .ok (some true)
    | .assign _ (.string "false") => .ok (some false)
    | .assign _ (.string _) => .error .notBoolean
    | _ => .error (.invalidAttribute key)
  else .ok none

/-- Sets what may be set once. -/
def setOnce {α : Type} (kind : String) (shown : α → String) (current : Option α) (value : α)
    : Except DeclarationError (Option α) :=
  match current with
  | some first => .error (.duplicate kind (shown first) (shown value))
  | none => .ok (some value)

end Protobuf.Declaration
