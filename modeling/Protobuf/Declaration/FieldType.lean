import Protobuf.Declaration.Attribute
import Protobuf.Declaration.PathGrammar

/-! The type of a declared field: a scalar word, an enumeration named by a path, or a message.
-/

namespace Protobuf.Declaration

/-- The type of a declared field; an enumeration has the text of the path that names it. -/
inductive FieldType where
  | int32
  | int64
  | uint32
  | uint64
  | sint32
  | sint64
  | fixed32
  | fixed64
  | sfixed32
  | sfixed64
  | bool
  | float
  | double
  | string
  | bytes
  | message
  | enumeration (path : String)
deriving DecidableEq, Repr

namespace FieldType

/-- The types that are written as one word. -/
def words : List (String × FieldType) :=
  [("int32", .int32), ("int64", .int64), ("uint32", .uint32), ("uint64", .uint64),
    ("sint32", .sint32), ("sint64", .sint64), ("fixed32", .fixed32), ("fixed64", .fixed64),
    ("sfixed32", .sfixed32), ("sfixed64", .sfixed64), ("bool", .bool), ("float", .float),
    ("double", .double), ("string", .string), ("bytes", .bytes), ("message", .message)]

/-- The type as it is shown. -/
def text : FieldType → String
  | .int32 => "int32"
  | .int64 => "int64"
  | .uint32 => "uint32"
  | .uint64 => "uint64"
  | .sint32 => "sint32"
  | .sint64 => "sint64"
  | .fixed32 => "fixed32"
  | .fixed64 => "fixed64"
  | .sfixed32 => "sfixed32"
  | .sfixed64 => "sfixed64"
  | .bool => "bool"
  | .float => "float"
  | .double => "double"
  | .string => "string"
  | .bytes => "bytes"
  | .message => "message"
  | .enumeration path => "enumeration(" ++ path ++ ")"

/-- The name of the codec of the type, without blanks. -/
def codecName : FieldType → String
  | .int32 => "Int32"
  | .int64 => "Int64"
  | .uint32 => "Uint32"
  | .uint64 => "Uint64"
  | .sint32 => "Sint32"
  | .sint64 => "Sint64"
  | .fixed32 => "Fixed32"
  | .fixed64 => "Fixed64"
  | .sfixed32 => "Sfixed32"
  | .sfixed64 => "Sfixed64"
  | .bool => "Bool"
  | .float => "Float"
  | .double => "Double"
  | .string => "Str"
  | .bytes => "Bytes"
  | .message => "Msg"
  | .enumeration path => "Enum<" ++ String.ofList (path.toList.filter (· != ' ')) ++ ">"

/-- Repeated fields of the type are packed unless that is declined. -/
def isNumeric : FieldType → Bool
  | .string | .bytes | .message => false
  | _ => true

/-- The type may be the key of a map. -/
def isMapKey : FieldType → Bool
  | .float | .double | .bytes | .message => false
  | .enumeration _ => false
  | _ => true

/-- The enumeration that a path names. -/
def ofPath (text : List Char) : Except DeclarationError FieldType :=
  match pathTokens text with
  | .ok tokens => .ok (.enumeration (Token.textOf tokens))
  | .error fault => .error (.path fault)

/-- The part of a text between an initial and a final part. -/
def between? (front back text : List Char) : Option (List Char) :=
  if front.isPrefixOf text then
    let rest := text.drop front.length
    if back.isSuffixOf rest then some (rest.take (rest.length - back.length)) else none
  else none

/-- The type that a text names: a word, or `enumeration(…)` around a path. -/
def ofText (text : String) : Except DeclarationError FieldType :=
  let chars := trim text.toList
  match between? "enumeration(".toList [')'] chars with
  | some path => ofPath (trim path)
  | none =>
      match words.lookup (String.ofList chars) with
      | some type => .ok type
      | none => .error (.unknownType (String.ofList chars))

/-- The type that an item names: a word, or a path under `enumeration`. -/
def ofItem (item : Item) : Except DeclarationError (Option FieldType) :=
  match item with
  | .word key => .ok (words.lookup key)
  | .assign "enumeration" (.string path) => (ofPath path.toList).map some
  | _ => .ok none

end FieldType

end Protobuf.Declaration
